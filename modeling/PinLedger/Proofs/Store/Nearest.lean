import PinLedger.Proofs.Reconcile.Snapping
import PinLedger.Proofs.Reconcile.Transition
import PinLedger.Proofs.Store.Hulls

/-!
# PinLedger.Proofs.Store.Nearest

Which row a table names as the nearest one, in whatever order its rows are and however often a time
comes. Outside of leap seconds the rows that two instants are snapped to never cross, so that
snapping keeps hulls in shape.

* `Table.Nearest` — a row at the least distance, the earliest of these
* `Table.nearest?_eq_some_iff`, `Table.nearest?_eq_none_iff` — what the table answers
* `Table.snap_of_mem` — a row is snapped to itself
* `follows_snapOnce`, `follows_hull` — the same with remembered answers, and for the hull of two times
* `nearest_monotone` — all of it, for a column of the store
-/

namespace PinLedger

/-- `s` is a row as near to `x` as any, and the earliest of these. -/
structure Table.Nearest (t : Table) (x s : Instant) : Prop where
  row : s ∈ t.times
  closest : ∀ z ∈ t.times, s.distance x ≤ z.distance x
  earliest : ∀ z ∈ t.times, z.distance x = s.distance x → s ≤ z

/-- No bound is a leap second. -/
structure TimeRange.LeapFree (r : TimeRange) : Prop where
  start : r.start.isLeap = false
  stop : r.stop.isLeap = false

namespace Table

variable {t : Table} {x y s s' : Instant}

theorem Nearest.unique (h : t.Nearest x s) (h' : t.Nearest x s') : s = s' := by
  have hdistance : s.distance x = s'.distance x :=
    Nat.le_antisymm (h.closest s' h'.row) (h'.closest s h.row)
  exact Instant.le_antisymm (h.earliest s' h'.row hdistance.symm) (h'.earliest s h.row hdistance)

theorem nearest_of_nearest? (h : t.nearest? x = some s) : t.Nearest x s where
  row := nearestOf_mem h
  closest z hz := by
    have hnear := nearer_iff.1 (nearer_nearestOf h z hz)
    omega
  earliest z hz hdistance := by
    have hnear := nearer_iff.1 (nearer_nearestOf h z hz)
    exact hnear.elim (fun hlt => absurd hdistance (Nat.ne_of_gt hlt)) And.right

theorem nearest?_eq_none_iff : t.nearest? x = none ↔ t.rows = [] := by
  constructor
  · intro h
    exact List.map_eq_nil_iff.1 (nearestOf_eq_none h)
  · intro h
    simp [nearest?, h, nearestOf]

theorem nearest?_eq_some_iff : t.nearest? x = some s ↔ t.Nearest x s := by
  refine ⟨nearest_of_nearest?, fun h => ?_⟩
  cases hn : t.nearest? x with
  | none =>
    have hrow : s ∈ t.rows.map (·.time) := h.row
    rw [nearest?_eq_none_iff.1 hn] at hrow
    cases hrow
  | some s' => rw [(nearest_of_nearest? hn).unique h]

/-- A row is snapped to itself: no other row is at no distance from it. -/
theorem snap_of_mem (hfree : ∀ z ∈ t.times, z.isLeap = false) (hx : x ∈ t.times) :
    t.snap x = x :=
  (eq_snap hfree (hfree x hx) hx (by
    rcases Instant.le_total (t.snap x) x with h | h
    · exact .inl ⟨h, Instant.le_refl x⟩
    · exact .inr ⟨Instant.le_refl x, h⟩)).symm

/-- What is snapped from within a range lies within the range snapped. -/
theorem mem_snapped {raw raw' : TimeRange} (hfree : ∀ z ∈ t.times, z.isLeap = false)
    (hraw : raw.LeapFree) (hraw' : raw'.LeapFree) (h : ∀ x ∈ raw, x ∈ raw') :
    t.snap raw'.start ≤ t.snap raw.start ∧ t.snap raw.stop ≤ t.snap raw'.stop := by
  have hstart := h raw.start ⟨Instant.le_refl _, raw.start_le_stop⟩
  have hstop := h raw.stop ⟨raw.start_le_stop, Instant.le_refl _⟩
  exact ⟨snap_le_snap hfree hraw'.start hraw.start hstart.1,
    snap_le_snap hfree hraw.stop hraw'.stop hstop.2⟩

end Table

/-- The hull of two times outside of leap seconds. -/
theorem Window.leapFree_of_hull? {w : Window} {a b : Instant} {raw : TimeRange}
    (ha : a.isLeap = false) (hb : b.isLeap = false) (h : w.hull? a b = some raw) :
    raw.LeapFree := by
  have hpair : (orderedPair a b).1.isLeap = false ∧ (orderedPair a b).2.isLeap = false := by
    unfold orderedPair
    split
    · exact ⟨ha, hb⟩
    · exact ⟨hb, ha⟩
  obtain ⟨start, hstart, h⟩ := Option.bind_eq_some_iff.1 h
  obtain ⟨stop, hstop, h⟩ := Option.bind_eq_some_iff.1 h
  cases h
  have hbounds := TimeRange.bounds_between (P := fun t => t.isLeap = false)
    (Instant.nanos_of_sub? hpair.1 hstart).1 (Instant.nanos_of_add? hpair.2 hstop).1
  exact ⟨hbounds.1, hbounds.2⟩

/-! ### Snapping with remembered answers -/

section Store

variable {d : StoreData} {c : Column} {t : Table}

theorem lookup_of_table (hfind : d.tables.find? c.table = some t) (hcolumn : t.column = c.name)
    (x : Instant) : d.lookup c x = .ok (t.nearest? x) := by
  unfold StoreData.lookup
  rw [table_eq_ok.2 ⟨hfind, hcolumn⟩]
  rfl

/-- However many answers are remembered, an instant is snapped to the nearest row. -/
theorem follows_snapOnce (hfind : d.tables.find? c.table = some t) (hcolumn : t.column = c.name)
    (x : Instant) : Follows d.lookup.ask (snapOnce d.lookup.ask c x) (.ok (t.snap x)) := by
  rw [← snapDirect_of_table hfind hcolumn]
  exact Follows.snapOnce c x

/-- Snapping does not swap the bounds of a hull. -/
theorem follows_hull (hfind : d.tables.find? c.table = some t) (hcolumn : t.column = c.name)
    (hfree : ∀ z ∈ t.times, z.isLeap = false) {w : Window} {a b : Instant} {raw : TimeRange}
    (hraw : w.hull? a b = some raw) (hrawFree : raw.LeapFree) :
    Follows d.lookup.ask (snappedHull (snapOnce d.lookup.ask) w c a b)
      (.ok ⟨t.snap raw.start, t.snap raw.stop,
        Table.snap_le_snap hfree hrawFree.start hrawFree.stop raw.start_le_stop⟩) := by
  have hfollows : Follows d.lookup.ask (snappedHull (snapOnce d.lookup.ask) w c a b)
      (d.lookup.hull w c a b) :=
    (follows d.lookup.ask).snappedHull Follows.snapOnce w c a b
  rw [hull_of_table hfind hcolumn, Table.hull?, hraw, Option.map_some,
    TimeRange.between_of_le
      (Table.snap_le_snap hfree hrawFree.start hrawFree.stop raw.start_le_stop)] at hfollows
  exact hfollows

/-- **In a column without leap seconds snapping takes every instant to the earliest of the nearest
rows, keeps the order of instants, the bounds of hulls and what lies in what, and leaves rows where
they are.** -/
theorem nearest_monotone (hfind : d.tables.find? c.table = some t) (hcolumn : t.column = c.name)
    (hfree : ∀ z ∈ t.times, z.isLeap = false) :
    (∀ x, d.lookup c x = .ok none ↔ t.rows = []) ∧
    (∀ x s, d.lookup c x = .ok (some s) ↔ t.Nearest x s) ∧
    (∀ x, Follows d.lookup.ask (snapOnce d.lookup.ask c x) (.ok (t.snap x))) ∧
    (∀ x y, x.isLeap = false → y.isLeap = false → x ≤ y → t.snap x ≤ t.snap y) ∧
    (∀ r ∈ t.times, t.snap r = r) ∧
    ∀ w a b raw, w.hull? a b = some raw → raw.LeapFree →
      ∃ range, Follows d.lookup.ask (snappedHull (snapOnce d.lookup.ask) w c a b) (.ok range) ∧
        range.start = t.snap raw.start ∧ range.stop = t.snap raw.stop ∧
        ∀ w' a' b' raw', w'.hull? a' b' = some raw' → raw'.LeapFree → (∀ x ∈ raw, x ∈ raw') →
          ∃ range',
            Follows d.lookup.ask (snappedHull (snapOnce d.lookup.ask) w' c a' b') (.ok range') ∧
            ∀ x ∈ range, x ∈ range' := by
  refine ⟨?empty, ?nearest, follows_snapOnce hfind hcolumn,
    fun x y hx hy => Table.snap_le_snap hfree hx hy, fun r => Table.snap_of_mem hfree, ?hulls⟩
  case empty =>
    intro x
    rw [lookup_of_table hfind hcolumn, Except.ok.injEq, Table.nearest?_eq_none_iff]
  case nearest =>
    intro x s
    rw [lookup_of_table hfind hcolumn, Except.ok.injEq, Table.nearest?_eq_some_iff]
  case hulls =>
    intro w a b raw hraw hrawFree
    refine ⟨_, follows_hull hfind hcolumn hfree hraw hrawFree, rfl, rfl, ?_⟩
    intro w' a' b' raw' hraw' hrawFree' hsub
    refine ⟨_, follows_hull hfind hcolumn hfree hraw' hrawFree', ?_⟩
    obtain ⟨hstart, hstop⟩ := Table.mem_snapped hfree hrawFree hrawFree' hsub
    exact fun x hx => ⟨Instant.le_trans hstart hx.1, Instant.le_trans hx.2 hstop⟩

end Store

/-- Rows at twenty to four, at ten past three and again at twenty to four. -/
def shuffledRows : Table :=
  ⟨"time", [⟨pastThree 40, 0⟩, ⟨pastThree 10, 1⟩, ⟨pastThree 40, 2⟩]⟩

def shuffled : StoreData where
  tables := .ofList [("obs", shuffledRows)]

/-- Halfway between the rows the earlier one is taken, a moment later the other one. The hull around
twenty to four ends at ten past four, and is cut to the rows. -/
theorem nearest_monotone_shuffled :
    shuffled.lookup ⟨"obs", "time"⟩ (pastThree 25) = .ok (some (pastThree 10)) ∧
    shuffledRows.snap (pastThree 25) ≤ shuffledRows.snap (pastThree 26) ∧
    shuffledRows.snap (pastThree 40) = pastThree 40 ∧
    ∃ range, Follows shuffled.lookup.ask
        (snappedHull (snapOnce shuffled.lookup.ask) hour ⟨"obs", "time"⟩ (pastThree 40)
          (pastThree 40)) (.ok range) ∧
      range.start = pastThree 10 ∧ range.stop = pastThree 40 := by
  have hfree : ∀ z ∈ shuffledRows.times, z.isLeap = false := by decide
  have hraw : hour.hull? (pastThree 40) (pastThree 40) =
      some (.between (pastThree 10) (pastThree 70)) := by decide
  have hrawFree := Window.leapFree_of_hull? (by decide) (by decide) hraw
  obtain ⟨-, hnearest, -, hmono, hrow, hhull⟩ :=
    nearest_monotone (c := ⟨"obs", "time"⟩) (d := shuffled) (t := shuffledRows) rfl rfl hfree
  obtain ⟨range, hfollows, hstart, hstop, -⟩ := hhull _ _ _ _ hraw hrawFree
  have hfront : shuffledRows.snap (pastThree 10) = pastThree 10 := hrow _ (by decide)
  have hback : shuffledRows.snap (pastThree 70) = pastThree 40 := by decide
  exact ⟨(hnearest _ _).2 ⟨by decide, by decide, by decide⟩,
    hmono _ _ (by decide) (by decide) (by decide), hrow _ (by decide),
    range, hfollows, hstart.trans hfront, hstop.trans hback⟩

end PinLedger
