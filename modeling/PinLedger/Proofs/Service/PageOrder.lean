import PinLedger.Proofs.Feed.Latest
import PinLedger.Proofs.Feed.Memory
import PinLedger.Proofs.Run.PageOrder
import PinLedger.Proofs.Service.Conservation

/-!
# PinLedger.Proofs.Service.PageOrder

The order of a page does not matter to a service. Where the pins are those of the holds, a run over a
page of distinct views and a run over the same views in another order complete together, and leave
the same behind but for the order of the log.

* `Engine.page`, `Engine.feeding` — what the feed is going to answer, and another feed
* `Engine.HasRoom` — no pin can leave its range
* `page_order_invisible` — two orders of a page cannot be told apart
-/

namespace PinLedger

variable {w : Window} {d d' d₁ d₂ : StoreData} {views : List ParsedView}

/-! ### Loads -/

namespace Load

variable {l : Load} {g : Ledger} {sum sum' : RunSummary}

/-- Where the records cover no more than is pinned, a run starts from counts that are those of the
records and of something else besides. A run from scratch does so in any case. -/
theorem tallied_start_of_le {f : String → Instant → Nat} (hd : d.Pinned f)
    (hcover : l.fresh = false → ∀ name t, d.tables.find? name = some t → ∀ row ∈ t.rows,
      d.coverage l.registry w name row.time ≤ f name row.time)
    (h : l.start d = .ok g) :
    ∃ extra, g.data.Tallied (fun p n => p = n) extra l.registry w := by
  unfold start at h
  cases hfresh : l.fresh
  · rw [hfresh] at h
    cases h
    -- the rest is what no plan finds: holds on columns that are not there
    refine ⟨fun name x => f name x - d.coverage l.registry w name x, ?_⟩
    intro name t ht row hrow
    have hle := hcover hfresh name t ht row hrow
    have hpin := hd name t ht row hrow
    show row.pin = ((d.coverage l.registry w name row.time +
      (f name row.time - d.coverage l.registry w name row.time) : Nat) : Int)
    rw [Nat.add_sub_cancel' hle]
    exact hpin
  · rw [hfresh] at h
    have hcounted : (⟨d, 0, 0⟩ : Ledger).data.Counted (fun p n => p = n) f := hd
    exact ⟨_, hcounted.wipe comparison_eq h⟩

/-- Loads with the same views in another order leave the same behind. -/
theorem post_perm {f : String → Instant → Nat} (hperm : l.views.Perm views)
    (hids : (l.views.map (·.id)).Nodup) (hspaced : d.Spaced) (hd : d.Pinned f)
    (hcover : l.fresh = false → ∀ name t, d.tables.find? name = some t → ∀ row ∈ t.rows,
      d.coverage l.registry w name row.time ≤ f name row.time)
    (h₁ : l.post w d = .ok (sum, d₁)) (h₂ : { l with views }.post w d = .ok (sum', d₂)) :
    sum = sum' ∧ Reordered d₁ d₂ := by
  rw [post_eq] at h₁ h₂
  obtain ⟨g, hstart, hrun₁⟩ := bind_eq_ok.1 h₁
  obtain ⟨g', hstart', hrun₂⟩ := bind_eq_ok.1 h₂
  have hsame : l.start d = .ok g' := hstart'
  rw [hstart] at hsame
  cases hsame
  obtain ⟨extra, htallied⟩ := tallied_start_of_le hd hcover hstart
  exact run_perm hperm hids (hspaced.of_skeleton (skeleton_start hstart)) htallied hrun₁ hrun₂

/-- A load that can be posted can be posted with its views in another order, if no pin can leave its
range. -/
theorem post_of_perm (hperm : l.views.Perm views) (hids : (l.views.map (·.id)).Nodup)
    (hroom : ∀ g, l.start d = .ok g → g.data.Room (g.data.raises l.registry w l.views))
    (h : l.post w d = .ok (sum, d')) : ∃ r, { l with views }.post w d = .ok r := by
  rw [post_eq] at h
  obtain ⟨g, hstart, hrun⟩ := bind_eq_ok.1 h
  obtain ⟨r, hr⟩ := run_of_perm hperm hids (hroom g hstart) hrun
  refine ⟨r, ?_⟩
  rw [post_eq]
  exact bind_eq_ok.2 ⟨g, hstart, hr⟩

end Load

theorem StoreData.raises_perm {reg : Registry} {views' : List ParsedView}
    (hp : views.Perm views') : d.raises reg w views = d.raises reg w views' :=
  (hp.map _).sum_nat

/-! ### Pages -/

/-- A page in another order is decoded to the same views in another order. -/
theorem Site.fetch_perm {s : Site} {f : MemoryFeed} {since latest : Option Instant}
    {page page' : List RawView}
    (hpage : s.feed.fetch (if s.feedGivesAll then none else since) = .ok page)
    (hpage' : f.fetch (if s.feedGivesAll then none else since) = .ok page')
    (hp : page.Perm page') (h : s.fetch since = .ok (views, latest)) :
    views.map (·.id) = page.map (·.id) ∧
      ∃ views', { s with feed := f }.fetch since = .ok (views', latest) ∧ views.Perm views' := by
  obtain ⟨page₁, hpage₁, hviews, rfl⟩ := Site.fetch_eq_ok h
  rw [hpage] at hpage₁
  cases hpage₁
  obtain ⟨views', hviews', hperm⟩ := perm_of_mapM hp hviews
  refine ⟨ids_of_mapM_parse hviews, views', ?_, hperm⟩
  rw [latestUpdate_perm hp]
  exact bind_eq_ok.2 ⟨page', hpage', bind_eq_ok.2 ⟨views', hviews', rfl⟩⟩

namespace Engine

/-- The feed answers with other views. -/
def feeding (e : Engine) (f : MemoryFeed) : Engine :=
  { e with site := { e.site with feed := f } }

/-- What the feed is going to answer a run. -/
def page (e : Engine) (kind : TaskKind) : Except FeedError (List RawView) :=
  e.site.feed.fetch <| if e.site.feedGivesAll then none else
    match kind with
    | .reset => none
    | .incremental => e.site.store.data.lastRun

/-- No pin, which has 64 bits, can leave its range in a run, not even if all operations that go up
came first. -/
def HasRoom (e : Engine) (kind : TaskKind) : Prop :=
  ∀ l g, (e.load kind).1 = .ok l → l.start e.site.store.data = .ok g →
    g.data.Room (g.data.raises l.registry e.service.settings.window l.views)

variable {e e' : Engine} {f : MemoryFeed} {kind : TaskKind} {l : Load} {sum : RunSummary}
variable {p p' : List RawView} {r : Request}

theorem begin_feeding (e : Engine) (f : MemoryFeed) (kind : TaskKind) :
    (e.feeding f).begin kind = ((e.begin kind).1, (e.begin kind).2.feeding f) :=
  begin_map (F := (·.feeding f)) (fun _ => rfl) (fun _ _ => rfl) (fun _ _ _ => rfl) (fun _ => rfl)
    e kind

theorem page_of_begin (hb : e.begin kind = (.ok r, e')) :
    e.page kind = e.site.feed.fetch (if e.site.feedGivesAll then none else r.mark) := by
  have hr := of_begin hb
  cases r with
  | all registry =>
    obtain ⟨rfl, _, _⟩ := hr
    rfl
  | since mark =>
    obtain ⟨rfl, rfl, _⟩ := hr
    rfl

/-- A page in another order makes a load with the same views in another order. -/
theorem load_perm (hpage : e.page kind = .ok p) (hpage' : (e.feeding f).page kind = .ok p')
    (hp : p.Perm p') (hl : e.load kind = (.ok l, e')) :
    l.views.map (·.id) = p.map (·.id) ∧
      ∃ views, (e.feeding f).load kind = (.ok { l with views }, e'.feeding f) ∧
        l.views.Perm views := by
  unfold load at hl ⊢
  rw [begin_feeding]
  rcases hb : e.begin kind with ⟨r, e₁⟩
  rw [hb] at hl
  cases r with
  | error err => cases hl
  | ok r =>
    obtain ⟨hg, rfl⟩ := Prod.mk.inj hl
    obtain ⟨hsite, _⟩ := begin_frame hb
    have hb' : (e.feeding f).begin kind = (.ok r, e₁.feeding f) := by
      rw [begin_feeding, hb]
    rw [page_of_begin hb] at hpage
    rw [page_of_begin hb'] at hpage'
    obtain ⟨⟨fetched, latest⟩, hf, rfl⟩ := gather_eq_ok hg
    rw [hsite] at hf
    obtain ⟨hids, views, hfetch, hviews⟩ := Site.fetch_perm (f := f) hpage hpage' hp hf
    have hsite' : (e₁.feeding f).site = { e.site with feed := f } := by
      unfold feeding
      rw [hsite]
    simp only [gather_eq, hsite', hfetch]
    cases r with
    | all registry => exact ⟨hids, views, rfl, hviews⟩
    | since mark => exact ⟨hids, views, rfl, hviews⟩

/-- A run that is not from scratch works with the registry that the service has. -/
theorem registry_of_load (hl : e.load kind = (.ok l, e')) (hfresh : l.fresh = false) :
    l.registry = e.service.registry := by
  unfold load at hl
  rcases hb : e.begin kind with ⟨r, e₁⟩
  rw [hb] at hl
  cases r with
  | error err => cases hl
  | ok r =>
    obtain ⟨hg, rfl⟩ := Prod.mk.inj hl
    have hr := of_begin hb
    obtain ⟨page, _, rfl⟩ := gather_eq_ok hg
    cases r with
    | all registry => cases hfresh
    | since mark =>
      obtain ⟨_, _, rfl⟩ := hr
      rfl

theorem HasRoom.feeding (hpage : e.page kind = .ok p) (hpage' : (e.feeding f).page kind = .ok p')
    (hp : p.Perm p') (h : e.HasRoom kind) : (e.feeding f).HasRoom kind := by
  intro l g hl hstart
  rcases hload : (e.feeding f).load kind with ⟨r, e'⟩
  rw [hload] at hl
  cases hl
  obtain ⟨_, views, hback, hviews⟩ := load_perm (f := e.site.feed) hpage' hpage hp.symm hload
  rw [StoreData.raises_perm hviews]
  have hback : e.load kind = (.ok { l with views }, e'.feeding e.site.feed) := hback
  exact h { l with views } g (congrArg Prod.fst hback) hstart

theorem completes_of_perm (hpage : e.page kind = .ok p)
    (hpage' : (e.feeding f).page kind = .ok p') (hp : p.Perm p') (hids : (p.map (·.id)).Nodup)
    (hf : e.site.store.faults.batchesLeft = none) (hroom : e.HasRoom kind)
    (h : (e.perform kind).1 = .ok sum) : ∃ sum', ((e.feeding f).perform kind).1 = .ok sum' := by
  rcases hload : e.load kind with ⟨r, e'⟩
  cases r with
  | error err =>
    rw [perform_eq_load, hload] at h
    cases h
  | ok l =>
    obtain ⟨hl, views, hload', hviews⟩ := load_perm hpage hpage' hp hload
    rw [← hl] at hids
    obtain ⟨ho, hpost⟩ := (perform_iff hload hf).1 ⟨h, rfl⟩
    obtain ⟨⟨sum', d⟩, hpost'⟩ := Load.post_of_perm hviews hids
      (fun g hstart => hroom l g (congrArg Prod.fst hload) hstart) hpost
    exact ⟨sum', ((perform_iff hload' hf).2 ⟨ho, hpost'⟩).1⟩

/-- **The order of a page does not matter.** The row times lie on a grid, and the pins of every row
are the holds that reach it. With no pin batch told to fail, a run over a page of distinct views
completes if and only if it completes with the page in another order, unless a pin can leave its 64
bits. When both complete, they count the same and leave the same tables, records and watermark, and
their logs have the same statements. -/
theorem page_order_invisible (hpage : e.page kind = .ok p)
    (hpage' : (e.feeding f).page kind = .ok p') (hp : p.Perm p') (hids : (p.map (·.id)).Nodup)
    (hspaced : e.site.store.data.Spaced)
    (hpins : ∀ name t, e.site.store.data.tables.find? name = some t → ∀ row ∈ t.rows,
      row.pin = (e.site.store.data.views.holds e.service.registry).countP
        (Hold.reaches e.service.settings.window name t row.time))
    (hf : e.site.store.faults.batchesLeft = none) :
    (e.HasRoom kind →
      ((∃ sum, (e.perform kind).1 = .ok sum) ↔ ∃ sum, ((e.feeding f).perform kind).1 = .ok sum)) ∧
      ∀ sum sum', (e.perform kind).1 = .ok sum → ((e.feeding f).perform kind).1 = .ok sum' →
        sum = sum' ∧ Reordered (e.perform kind).2.site.store.data
          ((e.feeding f).perform kind).2.site.store.data := by
  constructor
  · intro hroom
    have hids' : (p'.map (·.id)).Nodup := (hp.map (·.id)).nodup_iff.1 hids
    constructor
    · rintro ⟨sum, h⟩
      exact completes_of_perm hpage hpage' hp hids hf hroom h
    · rintro ⟨sum, h⟩
      have hroom' := hroom.feeding hpage hpage' hp
      exact completes_of_perm (e := e.feeding f) (f := e.site.feed) hpage' hpage hp.symm hids' hf
        hroom' h
  · intro sum sum' h h'
    rcases hload : e.load kind with ⟨r, e'⟩
    cases r with
    | error err =>
      rw [perform_eq_load, hload] at h
      cases h
    | ok l =>
      obtain ⟨hl, views, hload', hviews⟩ := load_perm hpage hpage' hp hload
      rw [← hl] at hids
      obtain ⟨_, hpost⟩ := (perform_iff hload hf).1 ⟨h, rfl⟩
      obtain ⟨_, hpost'⟩ := (perform_iff hload' hf).1 ⟨h', rfl⟩
      have hpinned : e.site.store.data.Pinned fun name x =>
          (e.site.store.data.tables.find? name).elim 0 fun t =>
            (e.site.store.data.views.holds e.service.registry).countP
              (Hold.reaches e.service.settings.window name t x) := by
        intro name t ht row hrow
        simp only [ht, Option.elim_some]
        exact hpins name t ht row hrow
      refine Load.post_perm hviews hids hspaced hpinned ?_ hpost hpost'
      intro hfresh name t ht row _
      simp only [ht, Option.elim_some, registry_of_load hload hfresh]
      exact coverage_le_countP ht row.time

end Engine

/-! One view leaves and another one comes to the same row. The row is left free or pinned twice in
between, as the page has it. -/

def leaving : RawView := { stargazer with disabled := true }

def coming : RawView := { stargazer with id := 2 }

def handover : Engine :=
  { watcher with site := { observatory with
    feed := { views := [leaving, coming] }
    store := { data := {
      tables := .ofList [("obs", ⟨"time", [⟨afternoon, 1⟩, ⟨evening, 0⟩]⟩)]
      views := ViewTable.empty.put {
        id := 1
        timeOriginal := afternoon
        timeMain := afternoon
        layers := .ofList ["stars"]
        lastUpdate := .told afternoon
        drivingLayer := none } } } } }

theorem table_handover {name : String} {t : Table}
    (h : handover.site.store.data.tables.find? name = some t) :
    name = "obs" ∧ t = ⟨"time", [⟨afternoon, 1⟩, ⟨evening, 0⟩]⟩ :=
  Dict.find?_singleton h

theorem hasRoom_handover : handover.HasRoom .incremental := by
  intro l g hl hstart
  have hload : (handover.load .incremental).1.toOption.map (fun l => (l.fresh,
      handover.site.store.data.raises l.registry handover.service.settings.window l.views)) =
        some (false, 1) := by decide +kernel
  rw [hl] at hload
  obtain ⟨hfresh, hraises⟩ := Prod.mk.inj (Option.some.inj hload)
  unfold Load.start at hstart
  rw [hfresh] at hstart
  cases hstart
  rw [hraises]
  intro name t ht
  obtain ⟨_, rfl⟩ := table_handover ht
  decide

theorem page_order_invisible_handover :
    ∃ sum, (handover.perform .incremental).1 = .ok sum ∧
      ((handover.feeding { views := [coming, leaving] }).perform .incremental).1 = .ok sum ∧
      Reordered (handover.perform .incremental).2.site.store.data
        ((handover.feeding { views := [coming, leaving] }).perform .incremental).2.site.store.data
      := by
  have hsum : (handover.perform .incremental).1.toOption = some {
      viewsSeen := 2, created := 1, disabled := 1, pinStatements := 2, viewStatements := 2
      watermark := some afternoon } := by decide +kernel
  have hcompletes := congrArg Prod.fst (eq_ok_of_toOption hsum)
  have hspaced : handover.site.store.data.Spaced := by
    intro name t ht
    obtain ⟨_, rfl⟩ := table_handover ht
    exact grid_of_list (by decide) (by decide)
  have hpins : ∀ name t, handover.site.store.data.tables.find? name = some t → ∀ row ∈ t.rows,
      row.pin = (handover.site.store.data.views.holds handover.service.registry).countP
        (Hold.reaches handover.service.settings.window name t row.time) := by
    intro name t ht
    obtain ⟨rfl, rfl⟩ := table_handover ht
    decide +kernel
  have hpage : handover.page .incremental = .ok [leaving, coming] := rfl
  have hpage' : (handover.feeding { views := [coming, leaving] }).page .incremental =
      .ok [coming, leaving] := rfl
  obtain ⟨hiff, hsame⟩ := Engine.page_order_invisible hpage hpage' (.swap coming leaving [])
    (by decide) hspaced hpins rfl
  obtain ⟨sum, hother⟩ := (hiff hasRoom_handover).1 ⟨_, hcompletes⟩
  obtain ⟨heq, hreordered⟩ := hsame _ _ hcompletes hother
  refine ⟨_, hcompletes, ?_, hreordered⟩
  rw [heq]
  exact hother

end PinLedger
