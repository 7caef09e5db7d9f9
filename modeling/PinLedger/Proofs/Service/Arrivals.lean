import PinLedger.Proofs.Reconcile.Transition
import PinLedger.Proofs.Service.Conservation

/-!
# PinLedger.Proofs.Service.Arrivals

Rows that arrive while views hold pins. A record keeps two times and no range: its hull is snapped
again when its pins are taken back, to the rows that are there by then. A row that arrivals have
taken out of that hull keeps its pin for good. If they take none out, no row ever has more pins than
holds, and the pins are gone when the last record is.

* `StoreData.inserted`, `StoreData.Harmless` — rows that arrive, and leave no pinned row outside
* `Occurrence`, `Engine.through` — histories with arrivals
* `Engine.Capped` — the invariant: no more pins than holds
* `pins_released` — no records, no pins
* `pin_left_behind` — an arrival that takes a pinned row out of its hull
-/

namespace PinLedger

namespace StoreData

/-- The data with more rows in a table, which nothing pins yet. -/
def inserted (d : StoreData) (name : String) (times : List Instant) : StoreData :=
  { d with tables := d.tables.modify name (·.insertTimes times) }

/-- Whatever row of the table a hold reaches, it still reaches when these rows have arrived. -/
def Harmless (reg : Registry) (w : Window) (d : StoreData) (name : String)
    (times : List Instant) : Prop :=
  ∀ t, d.tables.find? name = some t → ∀ h ∈ d.views.holds reg, ∀ x ∈ t.times,
    h.reaches w name t x = true → h.reaches w name (t.insertTimes times) x = true

end StoreData

variable {reg : Registry} {w : Window} {d : StoreData} {name : String} {times : List Instant}

theorem Table.mem_insertTimes {t : Table} {r : Row} (h : r ∈ (t.insertTimes times).rows) :
    r ∈ t.rows ∨ r.pin = 0 := by
  have hsorted : r ∈ t.rows ++ times.map (⟨·, 0⟩) := List.mem_mergeSort.1 h
  rcases List.mem_append.1 hsorted with hr | hr
  · exact .inl hr
  · obtain ⟨x, _, rfl⟩ := List.mem_map.1 hr
    exact .inr rfl

/-- A table after an arrival is the former one, or the former one with the rows. -/
theorem find?_inserted {name' : String} {t' : Table}
    (h : (d.inserted name times).tables.find? name' = some t') :
    ∃ t, d.tables.find? name' = some t ∧ t'.column = t.column ∧
      (t' = t ∨ name' = name ∧ t' = t.insertTimes times) := by
  unfold StoreData.inserted at h
  rw [Dict.find?_modify] at h
  by_cases hname : name' = name
  · rw [if_pos hname] at h
    obtain ⟨t, ht, rfl⟩ := Option.map_eq_some_iff.1 h
    exact ⟨t, ht, rfl, .inr ⟨hname, rfl⟩⟩
  · rw [if_neg hname] at h
    exact ⟨t', h, rfl, .inl rfl⟩

/-- After a harmless arrival every hold pins the rows that it pinned. -/
theorem pins_inserted {name' : String} {t t' : Table} {x : Instant} {h : Hold}
    (hh : d.Harmless reg w name times) (ht : d.tables.find? name' = some t)
    (ht' : (d.inserted name times).tables.find? name' = some t') (hx : x ∈ t.times)
    (hmem : h ∈ d.views.holds reg) (hp : h.pins d w name' x = true) :
    h.pins (d.inserted name times) w name' x = true := by
  obtain ⟨_, t₀, ht₀, hcolumn⟩ := column_of_pins hp
  obtain ⟨t₁, ht₁, hcolumn', hcases⟩ := find?_inserted ht'
  rw [ht] at ht₀ ht₁
  cases ht₀
  cases ht₁
  have hreach := reaches_of_pins ht hp
  rw [pins_eq_reaches ht' fun _ => hcolumn'.trans hcolumn]
  rcases hcases with rfl | ⟨rfl, rfl⟩
  · exact hreach
  · exact hh t ht h hmem x hx hreach

namespace StoreData

theorem Spaced.inserted (hd : d.Spaced)
    (h : ∀ t, d.tables.find? name = some t → Grid (· ∈ (t.insertTimes times).times)) :
    (d.inserted name times).Spaced := by
  intro name' t' ht'
  obtain ⟨t, ht, _, hcases⟩ := find?_inserted ht'
  rcases hcases with rfl | ⟨rfl, rfl⟩
  · exact hd name' t' ht
  · exact h t ht

/-- No more pins than the records cover: a harmless arrival leaves it at that. -/
theorem Tallied.inserted
    (hd : d.Tallied (fun p n => 0 ≤ p ∧ p ≤ n) (fun _ _ => 0) reg w)
    (hh : d.Harmless reg w name times) :
    (d.inserted name times).Tallied (fun p n => 0 ≤ p ∧ p ≤ n) (fun _ _ => 0) reg w := by
  intro name' t' ht' r hr
  obtain ⟨t, ht, _, hcases⟩ := find?_inserted ht'
  have hrow : r ∈ t.rows ∨ r.pin = 0 := by
    rcases hcases with rfl | ⟨_, rfl⟩
    · exact .inl hr
    · exact Table.mem_insertTimes hr
  rcases hrow with hold | hnew
  · have hx : r.time ∈ t.times := List.mem_map_of_mem hold
    have hle : d.coverage reg w name' r.time ≤
        (d.inserted name times).coverage reg w name' r.time := by
      rw [coverage_eq_holds, coverage_eq_holds]
      exact List.countP_mono_left fun h hmem hp => pins_inserted hh ht ht' hx hmem hp
    have hpin := hd name' t ht r hold
    simp only at hpin ⊢
    omega
  · simp only
    omega

end StoreData

/-! ### Histories -/

/-- What may happen at a site to which data arrive. -/
inductive Occurrence where
  | event (x : Event)
  | arrival (table : String) (times : List Instant)

namespace Engine

def undergo (e : Engine) : Occurrence → Engine
  | .event x => e.meet x
  | .arrival table times => e.withStore (e.site.store.insertRows table times)

/-- The engine after a history. -/
def through (e : Engine) (history : List Occurrence) : Engine := history.foldl undergo e

theorem through_append (e : Engine) (l l' : List Occurrence) :
    e.through (l ++ l') = (e.through l).through l' :=
  List.foldl_append

theorem through_cons (e : Engine) (x : Occurrence) (l : List Occurrence) :
    e.through (x :: l) = (e.undergo x).through l := rfl

/-- Rows arrive on the grid of their table, and harmlessly. -/
def Admits (e : Engine) : Occurrence → Prop
  | .event _ => True
  | .arrival table times =>
    (e.site.store.data.inserted table times).Spaced ∧
      e.site.store.data.Harmless e.service.registry e.service.settings.window table times

/-- All arrivals of a history are so. -/
def Undisturbed (e : Engine) : List Occurrence → Prop
  | [] => True
  | x :: history => e.Admits x ∧ (e.undergo x).Undisturbed history

theorem undisturbed_append {e : Engine} {l l' : List Occurrence} (h : e.Undisturbed l)
    (h' : (e.through l).Undisturbed l') : e.Undisturbed (l ++ l') := by
  induction l generalizing e with
  | nil => exact h'
  | cons x l ih => exact ⟨h.1, ih h.2 h'⟩

/-- No row has more pins than the records cover it. -/
structure Capped (es : List MappingEntry) (e : Engine) : Prop extends e.Mapped es where
  spaced : e.site.store.data.Spaced
  pins : e.site.store.data.Tallied (fun p n => 0 ≤ p ∧ p ≤ n) (fun _ _ => 0) e.service.registry
    e.service.settings.window

variable {es : List MappingEntry} {e e' : Engine}

theorem Capped.of_step (h : e.Capped es) (hs : e.core.Step e'.core) : e'.Capped es := by
  obtain ⟨hspaced, hpins⟩ := hs.keeps
    (P := fun reg w d => d.Spaced ∧ d.Tallied (fun p n => 0 ≤ p ∧ p ≤ n) (fun _ _ => 0) reg w)
    (fun hd hpost => ⟨hd.1.of_skeleton (Load.skeleton_post hpost),
      Load.tallied_post comparison_le hd.1 hd.2 hpost⟩) ⟨h.spaced, h.pins⟩
  exact ⟨h.of_frame hs.frame, hspaced, hpins⟩

theorem Capped.undergo (h : e.Capped es) {x : Occurrence} (hx : e.Admits x) :
    (e.undergo x).Capped es ∧
      (e.undergo x).core = { e.core with data := (e.undergo x).site.store.data } := by
  cases x with
  | event x =>
    have hstep := h.meet x
    exact ⟨h.of_step hstep, hstep.frame⟩
  | arrival table times =>
    obtain ⟨hspaced, hharmless⟩ := hx
    exact ⟨⟨h.of_frame rfl, hspaced, h.pins.inserted hharmless⟩, rfl⟩

theorem Capped.through (h : e.Capped es) {history : List Occurrence}
    (hcalm : e.Undisturbed history) :
    (e.through history).Capped es ∧
      (e.through history).core =
        { e.core with data := (e.through history).site.store.data } := by
  induction history generalizing e with
  | nil => exact ⟨h, rfl⟩
  | cons x history ih =>
    obtain ⟨hadmits, hrest⟩ := hcalm
    obtain ⟨h₁, hcore⟩ := h.undergo hadmits
    obtain ⟨h', hcore'⟩ := ih h₁ hrest
    refine ⟨h', ?_⟩
    show ((e.undergo x).through history).core = _
    rw [hcore', hcore]
    rfl

theorem capped_of_create {settings : RunSettings} {site : Site} {ws : List Warning}
    (hmapping : settings.mapping = .entries es) (hspaced : site.store.data.Spaced)
    (hpins : ∀ name t, site.store.data.tables.find? name = some t → ∀ row ∈ t.rows, row.pin = 0)
    (hviews : site.store.data.views = .empty)
    (hcreate : Engine.create settings site = (.ok e, ws)) : e.Capped es := by
  have h := accounted_of_create hmapping hspaced hpins hviews hcreate
  refine ⟨h.toMapped, h.spaced, ?_⟩
  intro name t ht row hrow
  have hpin := h.pins.pins name t ht row hrow
  simp only
  omega

/-- **Pins are released.** A service starts at a site without pins and records. After any history in
which arrivals are harmless, no row has more pins than there are holds that reach it; and when no
record is left, no row has a pin. -/
theorem pins_released {settings : RunSettings} {site : Site} {es : List MappingEntry}
    {e : Engine} {ws : List Warning} (hmapping : settings.mapping = .entries es)
    (hspaced : site.store.data.Spaced)
    (hpins : ∀ name t, site.store.data.tables.find? name = some t → ∀ row ∈ t.rows, row.pin = 0)
    (hviews : site.store.data.views = .empty)
    (hcreate : Engine.create settings site = (.ok e, ws)) {history : List Occurrence}
    (hcalm : e.Undisturbed history) {name : String} {t : Table}
    (ht : (e.through history).site.store.data.tables.find? name = some t) :
    (∀ row ∈ t.rows, 0 ≤ row.pin ∧
      row.pin ≤ ((e.through history).site.store.data.views.holds e.service.registry).countP
        (Hold.reaches settings.window name t row.time)) ∧
      ((e.through history).site.store.data.views = .empty → ∀ row ∈ t.rows, row.pin = 0) := by
  have hsettings : e.service.settings = settings := by
    obtain ⟨registry, _, rfl⟩ := of_create hcreate
    rfl
  have hstart := capped_of_create hmapping hspaced hpins hviews hcreate
  obtain ⟨h, hcore⟩ := hstart.through hcalm
  have hregistry : (e.through history).service.registry = e.service.registry :=
    (Core.mk.inj hcore).2.2.1
  have hwindow : (e.through history).service.settings.window = settings.window := by
    rw [(Core.mk.inj hcore).1, ← hsettings]
    rfl
  constructor
  · intro row hrow
    have hpin := h.pins name t ht row hrow
    rw [hregistry, hwindow] at hpin
    have hle : (e.through history).site.store.data.coverage e.service.registry settings.window name
        row.time ≤ _ := coverage_le_countP ht row.time
    simp only at hpin
    omega
  · intro hnone row hrow
    have hpin := h.pins name t ht row hrow
    simp only [StoreData.coverage_of_no_views hnone] at hpin
    omega

end Engine

/-! ### Rows at the end

Rows that are later than all others go to the end of their table. -/

/-- The table with more rows at its end. -/
def Table.appended (t : Table) (times : List Instant) : Table :=
  { t with rows := t.rows ++ times.map (⟨·, 0⟩) }

theorem Table.insertTimes_of_later {t : Table}
    (h : (t.appended times).rows.Pairwise fun a b => a.time ≤ b.time) :
    t.insertTimes times = t.appended times := by
  have hsorted : (t.appended times).rows.Pairwise fun a b => decide (a.time ≤ b.time) = true :=
    h.imp fun hle => decide_eq_true hle
  unfold insertTimes sortRows
  exact congrArg (Table.mk t.column) (List.mergeSort_of_pairwise hsorted)

/-- An arrival at the end, without the sorting. -/
theorem Engine.undergo_of_later {e : Engine}
    (h : ∀ t, e.site.store.data.tables.find? name = some t →
      (t.appended times).rows.Pairwise fun a b => a.time ≤ b.time) :
    e.undergo (.arrival name times) =
      e.withStore (e.site.store.modifyTable name (·.appended times)) := by
  have htables : e.site.store.data.tables.modify name (·.insertTimes times) =
      e.site.store.data.tables.modify name (·.appended times) :=
    Dict.modify_congr fun t ht => Table.insertTimes_of_later (h t ht)
  simp only [undergo, Store.insertRows, Store.modifyTable, htables]

/-! A view of half past three, on a table with one row at ten past. Twenty minutes around the view
reach from twenty past to twenty to four; both bounds are snapped to the row. -/

def terrace : Site where
  store := { data := { tables := .ofList [("obs", ⟨"time", [⟨pastThree 10, 0⟩]⟩)] } }
  catalog := .ofEntries [⟨"sky", "stars", ⟨"obs", "time"⟩⟩]

def brief : RunSettings := { hourly with window := .ofMinutes 20 }

def guest (disabled : Bool) (minutes : UInt8) : RawView where
  id := 1
  disabled
  preference :=
    "\x7b\"layers\":[\x7b\"id\":\"stars\"\x7d]," ++
    "\"time\":\x7b\"mode\":\"absolute\",\"value\":\"2025-03-20T15:30:00Z\"\x7d\x7d"
  lastUpdate := some (pastThree minutes)

/-- The service of that site when it has been created. -/
def host : Engine where
  service := {
    settings := brief
    registry := terrace.catalog.registry [⟨"stars", "sky", "stars"⟩] }
  site := terrace

def welcome : List Occurrence :=
  [.event (.feed { views := [guest false 40] } false), .event (.start .incremental), .event .work]

def farewell : List Occurrence :=
  [.event (.feed { views := [guest true 41] } false), .event (.start .incremental), .event .work]

/-- The view is pinned, a row arrives, and the view is disabled. -/
def visit (minutes : UInt8) : List Occurrence :=
  welcome ++ .arrival "obs" [pastThree minutes] :: farewell

theorem table_welcome :
    (host.through welcome).site.store.data.tables.find? "obs" =
      some ⟨"time", [⟨pastThree 10, 1⟩]⟩ := by
  decide +kernel

theorem through_visit {minutes : UInt8} (h : pastThree 10 ≤ pastThree minutes) :
    host.through (visit minutes) =
      ((host.through welcome).withStore ((host.through welcome).site.store.modifyTable "obs"
        (·.appended [pastThree minutes]))).through farewell := by
  have hlater : ∀ t, (host.through welcome).site.store.data.tables.find? "obs" = some t →
      (t.appended [pastThree minutes]).rows.Pairwise fun a b => a.time ≤ b.time := by
    intro t ht
    rw [table_welcome] at ht
    cases ht
    exact List.pairwise_pair.2 h
  rw [visit, Engine.through_append, Engine.through_cons, Engine.undergo_of_later hlater]

theorem create_host : Engine.create brief terrace = (.ok host, []) := rfl

theorem mapping_brief : brief.mapping = .entries [⟨"stars", "sky", "stars"⟩] := rfl

theorem table_terrace {name : String} {t : Table}
    (h : terrace.store.data.tables.find? name = some t) : t = ⟨"time", [⟨pastThree 10, 0⟩]⟩ :=
  (Dict.find?_singleton h).2

theorem spaced_terrace : terrace.store.data.Spaced := by
  intro name t ht
  rw [table_terrace ht]
  exact grid_of_list (by decide) (by decide)

theorem unpinned_terrace {name : String} {t : Table}
    (h : terrace.store.data.tables.find? name = some t) : ∀ row ∈ t.rows, row.pin = 0 := by
  rw [table_terrace h]
  decide

/-- A row at twenty past takes the place of the first row in the hull. That row stays pinned when
the view is gone. -/
theorem pin_left_behind :
    (host.through (visit 20)).site.store.data.views = .empty ∧
      (host.through (visit 20)).site.store.data.tables.find? "obs" =
        some ⟨"time", [⟨pastThree 10, 1⟩, ⟨pastThree 20, 0⟩]⟩ := by
  rw [through_visit (by decide)]
  decide +kernel

/-- A row at four o'clock makes the hull longer and leaves the first row in it. -/
theorem undisturbed_visit : host.Undisturbed (visit 60) := by
  have hlater : (Table.appended ⟨"time", [⟨pastThree 10, 1⟩]⟩ [pastThree 60]).rows.Pairwise
      fun a b => a.time ≤ b.time := by decide
  have hinsert := Table.insertTimes_of_later hlater
  have hwelcome : host.Undisturbed welcome := ⟨trivial, trivial, trivial, trivial⟩
  have hcapped := Engine.capped_of_create mapping_brief spaced_terrace
    (fun _ _ => unpinned_terrace) rfl create_host
  refine Engine.undisturbed_append hwelcome ⟨⟨?_, ?_⟩, trivial, trivial, trivial, trivial⟩
  · refine (hcapped.through hwelcome).1.spaced.inserted ?_
    intro t ht
    rw [table_welcome] at ht
    cases ht
    rw [hinsert]
    have hgrid : Grid (· ∈ [pastThree 10, pastThree 60]) := grid_of_list (by decide) (by decide)
    exact hgrid
  · have hreach : ((host.through welcome).site.store.data.views.holds
        (host.through welcome).service.registry).all fun h =>
          h.reaches (host.through welcome).service.settings.window "obs"
            (Table.appended ⟨"time", [⟨pastThree 10, 1⟩]⟩ [pastThree 60]) (pastThree 10) := by
      decide +kernel
    intro t ht h hh x hx _
    rw [table_welcome] at ht
    cases ht
    rw [List.mem_singleton.1 hx, hinsert]
    exact List.all_eq_true.1 hreach h hh

theorem pins_released_visit :
    ∃ t, (host.through (visit 60)).site.store.data.tables.find? "obs" = some t ∧
      t.times = [pastThree 10, pastThree 60] ∧ ∀ row ∈ t.rows, row.pin = 0 := by
  have hleft : (host.through (visit 60)).site.store.data.views = .empty ∧
      ((host.through (visit 60)).site.store.data.tables.find? "obs").map Table.times =
        some [pastThree 10, pastThree 60] := by
    rw [through_visit (by decide)]
    decide +kernel
  obtain ⟨hnone, htimes⟩ := hleft
  obtain ⟨t, ht, htimes⟩ := Option.map_eq_some_iff.1 htimes
  have h := Engine.pins_released mapping_brief spaced_terrace (fun _ _ => unpinned_terrace) rfl
    create_host undisturbed_visit ht
  exact ⟨t, ht, htimes, h.2 hnone⟩

end PinLedger
