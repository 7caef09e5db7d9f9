import PinLedger.Proofs.Layer.Registry
import PinLedger.Proofs.Reconcile.Operations
import PinLedger.Proofs.Store.Ledger

/-!
# PinLedger.Proofs.Run.Forgetting

A run from scratch forgets what was there. Planning sees the row times and the records but no pins,
and a run touches the tables of its registry only; so runs on data that agree so far end in data
that agree.

* `Alike` — agreement on the records, the row times and the tables of a registry
* `Alike.post`, `Alike.run` — the simulation, for a view and for a run
* `alike_wipe` — dropping everything leads to what a copy without pins and records is
-/

namespace PinLedger

/-- Data that agree on the records, the row times and the tables of a registry. -/
structure Alike (reg : Registry) (d d' : StoreData) : Prop where
  skeleton : d.skeleton = d'.skeleton
  tables : ∀ name ∈ reg.tables, d.tables.find? name = d'.tables.find? name
  views : d.views = d'.views

variable {reg : Registry} {w : Window} {d₁ d₂ d₁' d₂' : StoreData} {g₁ g₂ g₁' : Ledger}
variable {v : ParsedView} {p : Plan}

namespace Alike

/-- A statement on a table of the registry does the same to both. -/
theorem applyPin {s : PinStatement} (h : Alike reg d₁ d₂) (hs : s.table ∈ reg.tables)
    (h₁ : d₁.applyPin s = .ok d₁') : ∃ d₂', d₂.applyPin s = .ok d₂' ∧ Alike reg d₁' d₂' := by
  obtain ⟨tables, htables, rfl⟩ := applyPin_eq_ok h₁
  have htable := h.tables s.table hs
  cases s with
  | shift c range add =>
    obtain ⟨t, t', ht, hcolumn, hshift, rfl⟩ := shiftTables_shift htables
    have ht₂ : d₂.tables.find? c.table = some t := htable.symm.trans ht
    have hdone : d₂.applyPin (.shift c range add) =
        .ok { d₂ with
          tables := d₂.tables.modify c.table fun _ => t'
          pinLog := d₂.pinLog ++ [.shift c range add] } := by
      rw [applyPin_shift ht₂ hcolumn, hshift]
    refine ⟨_, hdone, ?_, ?_, h.views⟩
    · rw [skeleton_applyPin h₁, skeleton_applyPin hdone]
      exact h.skeleton
    · intro name hname
      rw [Dict.find?_modify, Dict.find?_modify, h.tables name hname]
  | reset table =>
    obtain ⟨hcontains, rfl⟩ := shiftTables_reset htables
    have hcontains₂ : d₂.tables.contains table = true := by
      unfold Dict.contains at hcontains ⊢
      rw [← h.tables table hs]
      exact hcontains
    have hdone : d₂.applyPin (.reset table) =
        .ok { d₂ with
          tables := d₂.tables.modify table Table.clear
          pinLog := d₂.pinLog ++ [.reset table] } := by
      simp only [StoreData.applyPin, StoreData.shiftTables, hcontains₂, if_true]
    refine ⟨_, hdone, ?_, ?_, h.views⟩
    · rw [skeleton_applyPin h₁, skeleton_applyPin hdone]
      exact h.skeleton
    · intro name hname
      rw [Dict.find?_modify, Dict.find?_modify, h.tables name hname]

theorem applyPins {l : List PinStatement} (h : Alike reg d₁ d₂)
    (hl : ∀ s ∈ l, s.table ∈ reg.tables) (h₁ : d₁.applyPins l = .ok d₁') :
    ∃ d₂', d₂.applyPins l = .ok d₂' ∧ Alike reg d₁' d₂' := by
  induction l generalizing d₁ d₂ with
  | nil =>
    cases h₁
    exact ⟨d₂, rfl, h⟩
  | cons s l ih =>
    rw [applyPins_cons] at h₁
    obtain ⟨e₁, hs₁, h₁⟩ := bind_eq_ok.1 h₁
    obtain ⟨e₂, hs₂, he⟩ := h.applyPin (hl s List.mem_cons_self) hs₁
    obtain ⟨d₂', hl₂, hd⟩ := ih he (fun s' hs' => hl s' (List.mem_cons_of_mem s hs')) h₁
    refine ⟨d₂', ?_, hd⟩
    rw [applyPins_cons, hs₂]
    exact hl₂

end Alike

/-! ### Plans -/

/-- A plan is about tables of the registry only. -/
theorem table_of_plan {lookup : RowLookup} {previous : Option ViewRecord}
    (h : planDirect lookup reg w previous v = .ok p) :
    ∀ s ∈ p.operations.map PinOperation.statement, s.table ∈ reg.tables := by
  intro s hs
  obtain ⟨op, hop, rfl⟩ := List.mem_map.1 hs
  obtain ⟨layer, hb⟩ := layer_of_operation h hop
  exact Registry.table_mem_tables hb

/-! ### Runs -/

/-- Data that agree have the same plan for a view, and agree when it has been carried out. -/
theorem Alike.post (h : Alike reg g₁.data g₂.data) (h₁ : g₁.post reg w v = .ok (p, g₁')) :
    ∃ g₂', g₂.post reg w v = .ok (p, g₂') ∧ Alike reg g₁'.data g₂'.data := by
  obtain ⟨hplan, e₁, hpins₁, hdata, _, _⟩ := Ledger.post_eq_ok h₁
  obtain ⟨e₂, hpins₂, he⟩ := h.applyPins (table_of_plan hplan) hpins₁
  have hlookup : g₁.data.lookup = g₂.data.lookup := StoreData.lookup_congr h.skeleton
  have hsame : g₂.plan reg w v = .ok p := by
    unfold Ledger.plan
    rw [← hlookup, ← h.views, plan_eq_planDirect, hplan]
    rfl
  have hpin : g₂.pin (p.operations.map PinOperation.statement) = .ok { g₂ with
      data := e₂
      pins := g₂.pins + (p.operations.map PinOperation.statement).length } :=
    map_eq_ok.2 ⟨e₂, hpins₂, rfl⟩
  refine ⟨_, bind_eq_ok.2 ⟨p, hsame, bind_eq_ok.2 ⟨_, hpin, rfl⟩⟩, ?_⟩
  rw [hdata]
  refine ⟨he.skeleton, he.tables, ?_⟩
  show p.statement.toList.foldl ViewTable.apply e₁.views =
    p.statement.toList.foldl ViewTable.apply e₂.views
  rw [he.views]

theorem Alike.postAll {views : List ParsedView} {sum sum' : RunSummary}
    (h : Alike reg g₁.data g₂.data)
    (h₁ : Ledger.postAll reg w sum g₁ views = .ok (sum', g₁')) :
    ∃ g₂', Ledger.postAll reg w sum g₂ views = .ok (sum', g₂') ∧ Alike reg g₁'.data g₂'.data := by
  induction views generalizing sum g₁ g₂ with
  | nil =>
    cases h₁
    exact ⟨g₂, rfl, h⟩
  | cons v views ih =>
    obtain ⟨⟨p, k₁⟩, hpost₁, h₁⟩ := bind_eq_ok.1 h₁
    obtain ⟨k₂, hpost₂, hk⟩ := h.post hpost₁
    obtain ⟨g₂', hall, hg⟩ := ih hk h₁
    exact ⟨g₂', bind_eq_ok.2 ⟨(p, k₂), hpost₂, hall⟩, hg⟩

/-- Runs with the same views on data that agree end in data that agree, and store the same watermark
if there is one. -/
theorem Alike.run {views : List ParsedView} {watermark : Option Instant} {sum : RunSummary}
    (h : Alike reg g₁.data g₂.data)
    (h₁ : Ledger.run reg w views watermark g₁ = .ok (sum, d₁')) :
    ∃ sum₂ d₂', Ledger.run reg w views watermark g₂ = .ok (sum₂, d₂') ∧ Alike reg d₁' d₂' ∧
      ∀ t, watermark = some t → d₁'.lastRun = some t ∧ d₂'.lastRun = some t := by
  obtain ⟨⟨sum₁, k₁⟩, hpost₁, h₁⟩ := bind_eq_ok.1 h₁
  cases h₁
  obtain ⟨k₂, hpost₂, hk⟩ := h.postAll hpost₁
  refine ⟨_, _, bind_eq_ok.2 ⟨(sum₁, k₂), hpost₂, rfl⟩, ?_, ?_⟩
  · cases watermark with
    | none => exact hk
    | some t => exact ⟨hk.skeleton, hk.tables, hk.views⟩
  · intro t ht
    cases ht
    exact ⟨rfl, rfl⟩

/-! ### Dropping everything -/

/-- The same rows without pins, no records and no watermark. -/
structure FreshCopy (d₀ d : StoreData) : Prop where
  tables : ∀ name, d₀.tables.find? name = (d.tables.find? name).map Table.clear
  views : d₀.views = .empty
  lastRun : d₀.lastRun = none

theorem Table.clear_eq {t t' : Table} (hcolumn : t.column = t'.column)
    (htimes : t.times = t'.times) : t.clear = t'.clear := by
  have hrows : ∀ u : Table, u.clear.rows = u.times.map fun x => ⟨x, 0⟩ := by
    intro u
    unfold Table.clear Table.times
    rw [List.map_map]
    rfl
  show (⟨t.column, t.clear.rows⟩ : Table) = ⟨t'.column, t'.clear.rows⟩
  rw [hcolumn, hrows, hrows, htimes]

theorem Table.clear_clear (t : Table) : t.clear.clear = t.clear :=
  Table.clear_eq rfl (Table.times_clear t)

theorem clear_of_skeleton (h : d₁.skeleton = d₂.skeleton) (name : String) :
    (d₁.tables.find? name).map Table.clear = (d₂.tables.find? name).map Table.clear := by
  have hname := congrFun h name
  unfold StoreData.skeleton at hname
  cases h₁ : d₁.tables.find? name with
  | none =>
    cases h₂ : d₂.tables.find? name with
    | none => rfl
    | some t₂ =>
      rw [h₁, h₂] at hname
      cases hname
  | some t₁ =>
    cases h₂ : d₂.tables.find? name with
    | none =>
      rw [h₁, h₂] at hname
      cases hname
    | some t₂ =>
      rw [h₁, h₂] at hname
      obtain ⟨hcolumn, htimes⟩ := Prod.mk.inj (Option.some.inj hname)
      exact congrArg some (Table.clear_eq hcolumn htimes)

theorem FreshCopy.skeleton {d₀ d : StoreData} (h : FreshCopy d₀ d) : d₀.skeleton = d.skeleton := by
  funext name
  unfold StoreData.skeleton
  rw [h.tables, Option.map_map]
  congr 1
  funext t
  exact Prod.ext rfl (Table.times_clear t)

/-- Which tables are cleared by resets. -/
theorem find?_of_resets {names : List String} (h : d₁.applyPins (names.map .reset) = .ok d₁')
    (name : String) :
    d₁'.tables.find? name =
      if name ∈ names then (d₁.tables.find? name).map Table.clear else d₁.tables.find? name := by
  induction names generalizing d₁ with
  | nil =>
    cases h
    simp
  | cons table names ih =>
    rw [List.map_cons, applyPins_cons] at h
    obtain ⟨e, hreset, h⟩ := bind_eq_ok.1 h
    obtain ⟨tables, htables, rfl⟩ := applyPin_eq_ok hreset
    obtain ⟨_, rfl⟩ := shiftTables_reset htables
    rw [ih h, Dict.find?_modify]
    by_cases hname : name = table
    · subst hname
      by_cases hrest : name ∈ names
      · simp [hrest, Option.map_map, Function.comp_def, Table.clear_clear]
      · simp [hrest]
    · simp [hname]

/-- Tables can be cleared in all data with the same tables. -/
theorem resets_of_skeleton {names : List String} (hs : d₁.skeleton = d₂.skeleton)
    (h : d₁.applyPins (names.map .reset) = .ok d₁') :
    ∃ d₂', d₂.applyPins (names.map .reset) = .ok d₂' := by
  induction names generalizing d₁ d₂ with
  | nil => exact ⟨d₂, rfl⟩
  | cons table names ih =>
    rw [List.map_cons, applyPins_cons] at h
    obtain ⟨e₁, hreset, h⟩ := bind_eq_ok.1 h
    obtain ⟨tables, htables, _⟩ := applyPin_eq_ok hreset
    obtain ⟨hcontains, _⟩ := shiftTables_reset htables
    have hcontains₂ : d₂.tables.contains table = true := by
      have hclear := clear_of_skeleton hs table
      unfold Dict.contains at hcontains ⊢
      rw [← Option.isSome_map (f := Table.clear), ← hclear, Option.isSome_map]
      exact hcontains
    have hdone : d₂.applyPin (.reset table) =
        .ok { d₂ with
          tables := d₂.tables.modify table Table.clear
          pinLog := d₂.pinLog ++ [.reset table] } := by
      simp only [StoreData.applyPin, StoreData.shiftTables, hcontains₂, if_true]
    have hskeleton := (skeleton_applyPin hreset).trans (hs.trans (skeleton_applyPin hdone).symm)
    obtain ⟨d₂', hrest⟩ := ih hskeleton h
    refine ⟨d₂', ?_⟩
    rw [List.map_cons, applyPins_cons, hdone]
    exact hrest

/-- What is left when everything is dropped agrees with a fresh copy. -/
theorem alike_wipe {d₀ : StoreData} (hfresh : FreshCopy d₀ g₁.data) (h : g₁.wipe reg = .ok g₁') :
    Alike reg g₁'.data d₀ := by
  obtain ⟨k, hpin, rfl⟩ := map_eq_ok.1 h
  obtain ⟨hpins, _, _⟩ := Ledger.pin_eq_ok hpin
  refine ⟨?_, ?_, hfresh.views.symm⟩
  · exact (skeleton_applyPins hpins).trans hfresh.skeleton.symm
  · intro name hname
    show k.data.tables.find? name = d₀.tables.find? name
    rw [find?_of_resets hpins name, if_pos hname, hfresh.tables name]

/-- So everything can be dropped from all data with the same tables, and what is left agrees. -/
theorem wipe_of_skeleton (hs : g₁.data.skeleton = g₂.data.skeleton) (h : g₁.wipe reg = .ok g₁') :
    ∃ g₂', g₂.wipe reg = .ok g₂' ∧ Alike reg g₁'.data g₂'.data := by
  obtain ⟨k₁, hpin, rfl⟩ := map_eq_ok.1 h
  obtain ⟨hpins₁, _, _⟩ := Ledger.pin_eq_ok hpin
  obtain ⟨e₂, hpins₂⟩ := resets_of_skeleton hs hpins₁
  refine ⟨_, map_eq_ok.2 ⟨_, map_eq_ok.2 ⟨e₂, hpins₂, rfl⟩, rfl⟩, ?_, ?_, rfl⟩
  · exact (skeleton_applyPins hpins₁).trans (hs.trans (skeleton_applyPins hpins₂).symm)
  · intro name hname
    show k₁.data.tables.find? name = e₂.tables.find? name
    rw [find?_of_resets hpins₁ name, find?_of_resets hpins₂ name, if_pos hname, if_pos hname]
    exact clear_of_skeleton hs name

section Rebuild

variable {d d' d₀ : StoreData} {views : List ParsedView} {watermark : Option Instant}
variable {sum : RunSummary}

/-- A run from scratch ends as a first run on a fresh copy does. -/
theorem update_of_rebuild (hfresh : FreshCopy d₀ d)
    (h : d.rebuild reg w views watermark = .ok (sum, d')) :
    ∃ sum₀ d₀', d₀.update reg w views watermark = .ok (sum₀, d₀') ∧ Alike reg d' d₀' ∧
      ∀ t, watermark = some t → d'.lastRun = some t ∧ d₀'.lastRun = some t := by
  obtain ⟨g, hwipe, hrun⟩ := bind_eq_ok.1 h
  have hcopy : FreshCopy d₀ (⟨d, 0, 0⟩ : Ledger).data := hfresh
  have hstart : Alike reg g.data (⟨d₀, 0, 0⟩ : Ledger).data := alike_wipe hcopy hwipe
  exact hstart.run hrun

/-- Runs from scratch end alike on data with the same row times. -/
theorem rebuild_of_skeleton (hs : d.skeleton = d₀.skeleton)
    (h : d.rebuild reg w views watermark = .ok (sum, d')) :
    ∃ sum₀ d₀', d₀.rebuild reg w views watermark = .ok (sum₀, d₀') ∧ Alike reg d' d₀' := by
  obtain ⟨g, hwipe, hrun⟩ := bind_eq_ok.1 h
  have hstores : (⟨d, 0, 0⟩ : Ledger).data.skeleton = (⟨d₀, 0, 0⟩ : Ledger).data.skeleton := hs
  obtain ⟨g₀, hwipe₀, hstart⟩ := wipe_of_skeleton hstores hwipe
  obtain ⟨sum₀, d₀', hrun₀, hend, _⟩ := hstart.run hrun
  exact ⟨sum₀, d₀', bind_eq_ok.2 ⟨g₀, hwipe₀, hrun₀⟩, hend⟩

end Rebuild

end PinLedger
