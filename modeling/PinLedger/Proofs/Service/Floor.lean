import PinLedger.Proofs.Run.Floor
import PinLedger.Proofs.Service.Arrivals

/-!
# PinLedger.Proofs.Service.Floor

The guard that keeps counts from going below zero is never needed. In every history of a service,
and in every run of it, a statement that goes down finds all rows of its range pinned at the moment
when it is carried out, also in a run that fails later on.

* `StoreData.ClearOfFloor` — statements that never needed the guard
* `honest_load`, `clear_of_honest` — the work of a run consists of such statements
* `floor_unreached` — the runs of whole histories
-/

namespace PinLedger

/-- From `d` on `executed` has been carried out, which led to the tables of `d'`. No statement in it
that went down came to a row without pins, and without the guard all would have gone the same way. -/
structure StoreData.ClearOfFloor (d : StoreData) (executed : List PinStatement) (d' : StoreData) :
    Prop where
  log : d'.pinLog = d.pinLog ++ executed
  reached : ∃ d₁, d.applyPins executed = .ok d₁ ∧ d₁.tables = d'.tables
  pinned : ∀ before c range after, executed = before ++ .shift c range false :: after →
    ∃ d₁ t, d.applyPins before = .ok d₁ ∧ d₁.tables.find? c.table = some t ∧
      ∀ r ∈ t.rows, r.time ∈ range → 0 < r.pin
  unguarded : ∀ before after, executed = before ++ after →
    before.foldlM StoreData.applyUnguarded d = d.applyPins before

theorem StoreData.Traced.clear {d d' : StoreData} (h : d.Traced d') :
    ∃ executed, d.ClearOfFloor executed d' := by
  obtain ⟨executed, d₁, hlog, hd₁, htables, hfunds⟩ := h.exists_log
  refine ⟨executed, hlog, ⟨d₁, hd₁, htables⟩, ?_, ?_⟩
  · rintro before c range after rfl
    obtain ⟨d₂, t, hd₂, ht, _, hrows⟩ := pinned_of_funds hfunds hd₁
    exact ⟨d₂, t, hd₂, ht, hrows⟩
  · rintro before after rfl
    exact applyUnguarded_of_funds (funds_append.1 hfunds).1

theorem honest_load {w : Window} (l : Load) :
    Honest (·.Ready l.registry w) (l.work w) fun _ _ => True := by
  unfold Load.work
  cases l.fresh
  · exact honest_update
  · exact honest_rebuild

namespace Engine

variable {es : List MappingEntry} {e e' : Engine}

/-- Until its transaction a run leaves all alone that the pins depend on, and its registry is that of
the service. -/
theorem Mapped.load {kind : TaskKind} {l : Load} (h : e.Mapped es)
    (hl : e.load kind = (.ok l, e')) : e'.core = e.core ∧ l.registry = e.service.registry := by
  unfold Engine.load at hl
  rcases hb : e.begin kind with ⟨request, e₁⟩
  rw [hb] at hl
  cases request with
  | error err => cases hl
  | ok request =>
    obtain ⟨hg, rfl⟩ := Prod.mk.inj hl
    exact ⟨h.begin hb, h.registry_of_gather hb hg⟩

/-- **The floor is never met.** A service starts at a site without pins and records, whose row times
lie on a grid. Whatever history it has had, the transaction of its next run, in which the worker has
taken the job from the queue, is clear of the floor, whether it is committed or fails on the way. -/
theorem floor_unreached {settings : RunSettings} {site : Site} {es : List MappingEntry}
    {e : Engine} {ws : List Warning} (hmapping : settings.mapping = .entries es)
    (hspaced : site.store.data.Spaced)
    (hpins : ∀ name t, site.store.data.tables.find? name = some t → ∀ row ∈ t.rows, row.pin = 0)
    (hviews : site.store.data.views = .empty)
    (hcreate : Engine.create settings site = (.ok e, ws)) (history : List Event)
    (jobs : List Job) {kind : TaskKind} {l : Load} {e' : Engine}
    (hload : ({ e.after history with
      service := { (e.after history).service with jobs } } : Engine).load kind = (.ok l, e')) :
    ∃ executed, (e.after history).site.store.data.ClearOfFloor executed
      (e'.outcome l).workspace.data := by
  have hstart := accounted_of_create hmapping hspaced hpins hviews hcreate
  obtain ⟨h, _⟩ := hstart.after history
  have htaken : ({ e.after history with
      service := { (e.after history).service with jobs } } : Engine).Mapped es :=
    h.of_frame rfl
  obtain ⟨hcore, hregistry⟩ := htaken.load hload
  obtain ⟨hsettings, _, _, hdata⟩ := Core.mk.inj hcore
  -- the transaction begins with the data and the registry that the invariant speaks of
  have hready : (Workspace.start e'.site.store.data e'.site.store.faults
      e'.service.settings.batchSize e'.service.settings.batchSize).Ready l.registry
        e'.service.settings.window := by
    rw [hregistry, hsettings, hdata]
    exact ready_start h.spaced h.pins _ _ _
  rcases hr : (l.work e'.service.settings.window).exec (Workspace.start e'.site.store.data
    e'.site.store.faults e'.service.settings.batchSize e'.service.settings.batchSize) with ⟨r, s'⟩
  obtain ⟨htraced, _⟩ := honest_load l _ r s' hready hr
  have houtcome : (e'.outcome l).workspace = s' := by
    unfold outcome
    rw [Store.transaction_of_exec hr]
  have hsame : e'.site.store.data = (e.after history).site.store.data := hdata
  rw [houtcome, ← hsame]
  exact htraced.clear

end Engine

/-! The view of half past three has been pinned, and the feed tells that it is disabled. -/

def dismissal : List Event :=
  [.feed { views := [guest false 40] } false, .start .incremental, .work,
   .feed { views := [guest true 41] } false]

theorem floor_unreached_dismissal :
    ∃ d', (host.after dismissal).site.store.data.ClearOfFloor
      [.shift ⟨"obs", "time"⟩ (.between (pastThree 10) (pastThree 10)) false] d' := by
  have hbefore : (host.after dismissal).site.store.data.pinLog =
      [.shift ⟨"obs", "time"⟩ (.between (pastThree 10) (pastThree 10)) true] := by decide +kernel
  have hafter : ((host.after dismissal).load .incremental).1.toOption.map (fun l =>
      (((host.after dismissal).load .incremental).2.outcome l).workspace.data.pinLog) =
        some [.shift ⟨"obs", "time"⟩ (.between (pastThree 10) (pastThree 10)) true,
          .shift ⟨"obs", "time"⟩ (.between (pastThree 10) (pastThree 10)) false] := by
    decide +kernel
  obtain ⟨l, hl, hlog⟩ := Option.map_eq_some_iff.1 hafter
  have hidle : ∀ (e : Engine) {l : Load}, (e.load .incremental).1.toOption = some l →
      ({ e with service := { e.service with jobs := e.service.jobs } } : Engine).load .incremental =
        (.ok l, (e.load .incremental).2) := fun _ _ h => eq_ok_of_toOption h
  obtain ⟨executed, h⟩ := Engine.floor_unreached mapping_brief spaced_terrace
    (fun _ _ => unpinned_terrace) rfl create_host dismissal (host.after dismissal).service.jobs
    (hidle (host.after dismissal) hl)
  have hlog' := h.log
  rw [hbefore, hlog] at hlog'
  obtain ⟨_, rfl⟩ := List.cons.inj hlog'
  exact ⟨_, h⟩

end PinLedger
