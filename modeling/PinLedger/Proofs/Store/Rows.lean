import PinLedger.Proofs.Reconcile.Coverage
import PinLedger.Store.Data

/-!
# PinLedger.Proofs.Store.Rows

What planning sees of the store: the columns and the row times of the tables, and no pins. A hull is
snapped to the row times of one table.

* `Table.times`, `StoreData.skeleton` — row times, and all that planning sees
* `lookup_congr` — data with the same skeleton answer alike
* `Table.hull?`, `hull_eq_ok`, `hull_of_table` — the snapped hull of two times on the rows of a table
* `boundsOn_times` — its bounds are row times, if there are any
-/

namespace PinLedger

/-- The times of the rows, in order. -/
def Table.times (t : Table) : List Instant := t.rows.map (·.time)

namespace StoreData

/-- The column and the row times of a table. -/
def skeleton (d : StoreData) (name : String) : Option (String × List Instant) :=
  (d.tables.find? name).map fun t => (t.column, t.times)

theorem lookup_eq (d : StoreData) (c : Column) (target : Instant) :
    d.lookup c target =
      match d.skeleton c.table with
      | none => .error (.noTable c.table "nearest_timestamp")
      | some (column, times) =>
        if column = c.name then .ok (Table.nearestOf target times) else .error (.noColumn c) := by
  unfold lookup StoreData.table skeleton
  cases d.tables.find? c.table with
  | none => rfl
  | some t =>
    by_cases hc : t.column = c.name
    · simp only [hc, if_true, Option.map_some]
      rfl
    · simp only [hc, if_false, Option.map_some]
      rfl

/-- Data with the same skeleton answer alike. -/
theorem lookup_congr {d d' : StoreData} (h : d.skeleton = d'.skeleton) : d.lookup = d'.lookup := by
  funext c target
  rw [lookup_eq, lookup_eq, h]

end StoreData

/-! ### Snapping to the rows of a table -/

theorem Table.nearestOf_mem {target t : Instant} {ts : List Instant}
    (h : Table.nearestOf target ts = some t) : t ∈ ts := by
  induction ts generalizing t with
  | nil => cases h
  | cons u us ih =>
    unfold Table.nearestOf at h
    cases hus : Table.nearestOf target us with
    | none =>
      rw [hus] at h
      cases h
      exact List.mem_cons_self
    | some s =>
      rw [hus] at h
      simp only at h
      by_cases hn : Table.nearer target u s = true
      · rw [if_pos hn] at h
        cases h
        exact List.mem_cons_self
      · rw [if_neg hn] at h
        cases h
        exact List.mem_cons_of_mem u (ih hus)

theorem Table.nearestOf_eq_none {target : Instant} {ts : List Instant}
    (h : Table.nearestOf target ts = none) : ts = [] := by
  cases ts with
  | nil => rfl
  | cons u us =>
    unfold Table.nearestOf at h
    cases hus : Table.nearestOf target us with
    | none =>
      rw [hus] at h
      cases h
    | some s =>
      rw [hus] at h
      simp only at h
      split at h
      · cases h
      · cases h

namespace Table

/-- The row time nearest to an instant; the instant itself, if there are no rows. -/
def snap (t : Table) (target : Instant) : Instant := (t.nearest? target).getD target

/-- The hull of two times, its bounds snapped to the rows. -/
def hull? (t : Table) (w : Window) (a b : Instant) : Option TimeRange :=
  (w.hull? a b).map fun raw => .between (t.snap raw.start) (t.snap raw.stop)

theorem snap_mem_times {t : Table} (h : t.times ≠ []) (target : Instant) :
    t.snap target ∈ t.times := by
  unfold snap nearest?
  cases hn : nearestOf target (t.rows.map (·.time)) with
  | none => exact absurd (nearestOf_eq_none hn) h
  | some s => exact nearestOf_mem hn

theorem snap_of_empty {t : Table} (h : t.times = []) (target : Instant) :
    t.snap target = target := by
  have hrows : t.rows.map (·.time) = [] := h
  simp [snap, nearest?, hrows, nearestOf]

end Table

theorem TimeRange.bounds_between {P : Instant → Prop} {a b : Instant} (ha : P a) (hb : P b) :
    P (TimeRange.between a b).start ∧ P (TimeRange.between a b).stop := by
  unfold TimeRange.between
  split
  · exact ⟨ha, hb⟩
  · exact ⟨hb, ha⟩

variable {d : StoreData} {w : Window} {c : Column} {t : Table} {a b : Instant} {range : TimeRange}

/-- A table that is found has the column that was asked for. -/
theorem table_eq_ok {operation : String} :
    d.table c operation = .ok t ↔ d.tables.find? c.table = some t ∧ t.column = c.name := by
  unfold StoreData.table
  cases hfind : d.tables.find? c.table with
  | none => simp
  | some t' =>
    by_cases hc : t'.column = c.name
    · simp only [hc, if_true, Except.ok.injEq, Option.some.injEq]
      constructor
      · rintro rfl
        exact ⟨rfl, hc⟩
      · exact And.left
    · simp only [hc, if_false, reduceCtorEq, false_iff, Option.some.injEq, not_and]
      rintro rfl
      exact hc

theorem snapDirect_eq_ok {target s : Instant} (h : snapDirect d.lookup.ask c target = .ok s) :
    ∃ t, d.tables.find? c.table = some t ∧ t.column = c.name ∧ s = t.snap target := by
  obtain ⟨answer, hask, h⟩ := bind_eq_ok.1 h
  cases h
  unfold RowLookup.ask StoreData.lookup at hask
  obtain ⟨t, ht, hanswer⟩ := bind_eq_ok.1 (mapError_eq_ok.1 hask)
  cases hanswer
  obtain ⟨hfind, hcolumn⟩ := table_eq_ok.1 ht
  exact ⟨t, hfind, hcolumn, rfl⟩

/-- A hull that is known is that of the table of the column. -/
theorem hull_eq_ok (h : d.lookup.hull w c a b = .ok range) :
    ∃ t, d.tables.find? c.table = some t ∧ t.column = c.name ∧ t.hull? w a b = some range := by
  unfold RowLookup.hull snappedHull at h
  obtain ⟨raw, hraw, h⟩ := bind_eq_ok.1 h
  obtain ⟨start, hstart, h⟩ := bind_eq_ok.1 h
  obtain ⟨stop, hstop, h⟩ := bind_eq_ok.1 h
  cases h
  obtain ⟨t, hfind, hcolumn, rfl⟩ := snapDirect_eq_ok hstart
  obtain ⟨t', hfind', _, rfl⟩ := snapDirect_eq_ok hstop
  rw [hfind] at hfind'
  cases hfind'
  refine ⟨t, hfind, hcolumn, ?_⟩
  unfold Table.hull?
  cases hw : w.hull? a b with
  | none =>
    rw [hw] at hraw
    cases hraw
  | some raw' =>
    rw [hw] at hraw
    cases hraw
    rfl

theorem snapDirect_of_table (hfind : d.tables.find? c.table = some t) (hcolumn : t.column = c.name)
    (target : Instant) : snapDirect d.lookup.ask c target = .ok (t.snap target) := by
  unfold snapDirect RowLookup.ask StoreData.lookup
  rw [table_eq_ok.2 ⟨hfind, hcolumn⟩]
  rfl

/-- In a column that exists, what planning takes for the hull is the hull on the rows. -/
theorem hull_of_table (hfind : d.tables.find? c.table = some t) (hcolumn : t.column = c.name)
    (a b : Instant) : d.lookup.hull w c a b = withinCalendar (t.hull? w a b) := by
  unfold RowLookup.hull snappedHull Table.hull?
  cases w.hull? a b with
  | none => rfl
  | some raw =>
    simp only [withinCalendar, pure_bind, snapDirect_of_table hfind hcolumn]
    rfl

/-- In a table with rows the bounds of every hull are row times. -/
theorem boundsOn_times (reg : Registry) {name : String} (hfind : d.tables.find? name = some t)
    (hrows : t.times ≠ []) (r : ViewRecord) : r.BoundsOn (· ∈ t.times) reg d.lookup w name := by
  intro layer _ l _ hc range h
  obtain ⟨t', hfind', _, hhull⟩ := hull_eq_ok h
  rw [hc, hfind] at hfind'
  cases hfind'
  unfold Table.hull? at hhull
  obtain ⟨raw, _, rfl⟩ := Option.map_eq_some_iff.1 hhull
  exact TimeRange.bounds_between (Table.snap_mem_times hrows _) (Table.snap_mem_times hrows _)

end PinLedger
