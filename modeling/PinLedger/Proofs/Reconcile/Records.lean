import PinLedger.Proofs.ViewTable
import PinLedger.Reconcile.Case

/-!
# PinLedger.Proofs.Reconcile.Records

What a view does to the records: it puts its own record, or it takes it away.

* `nextRecord` — the record that a view leaves behind
* `apply_nextStatement` — the change of a view, carried out
* `total_nextStatement`, `find?_nextStatement`, `mem_nextStatement` — what it does to sums, to what
  is found and to the list of the records
* `overlaps_nextRecord` — the two times of a record are never more than a window apart
-/

namespace PinLedger

/-- The record that a statement leaves behind. -/
def ViewStatement.record? : ViewStatement → Option ViewRecord
  | .insert r | .update r => some r
  | .delete _ => none

/-- The record that a view leaves behind. -/
def nextRecord (w : Window) (previous : Option ViewRecord) (v : ParsedView) : Option ViewRecord :=
  (nextStatement w previous v).bind ViewStatement.record?

/-- The table with what a view leaves behind in place of the former record. -/
def ViewTable.settle (t : ViewTable) (id : Int) : Option ViewRecord → ViewTable
  | some r => t.put r
  | none => t.erase id

variable {w : Window} {t : ViewTable} {v : ParsedView} {r : ViewRecord}

theorem id_of_nextRecord (h : nextRecord w (t.find? v.id) v = some r) : r.id = v.id := by
  unfold nextRecord nextStatement at h
  cases hfind : t.find? v.id with
  | none =>
    rw [hfind] at h
    cases hd : v.disabled
    · rw [hd] at h
      cases h
      rfl
    · rw [hd] at h
      cases h
  | some r₀ =>
    have hid : r₀.id = v.id := ViewTable.id_of_find? hfind
    rw [hfind] at h
    cases hd : v.disabled
    · rw [hd] at h
      cases h
      exact hid
    · rw [hd] at h
      cases h

/-- The change of a view puts its record in the place of the former one. -/
theorem apply_nextStatement (t : ViewTable) (w : Window) (v : ParsedView) :
    (nextStatement w (t.find? v.id) v).toList.foldl ViewTable.apply t =
      t.settle v.id (nextRecord w (t.find? v.id) v) := by
  unfold nextRecord nextStatement
  cases hfind : t.find? v.id with
  | none =>
    cases v.disabled
    · rfl
    · exact (ViewTable.erase_of_find? hfind).symm
  | some r =>
    have hid : r.id = v.id := ViewTable.id_of_find? hfind
    cases v.disabled
    · have hcontains : t.contains (updatedRecord r v (classifyUpdate w r v)).id = true := by
        show (t.find? r.id).isSome = true
        rw [hid, hfind]
        rfl
      show (if t.contains (updatedRecord r v (classifyUpdate w r v)).id then _ else t) = _
      rw [if_pos hcontains]
      rfl
    · show t.erase r.id = t.erase v.id
      rw [hid]

theorem total_nextStatement (t : ViewTable) (f : ViewRecord → Nat) (w : Window) (v : ParsedView) :
    ((nextStatement w (t.find? v.id) v).toList.foldl ViewTable.apply t).total f +
        (t.find? v.id).elim 0 f =
      t.total f + (nextRecord w (t.find? v.id) v).elim 0 f := by
  rw [apply_nextStatement]
  cases hnext : nextRecord w (t.find? v.id) v with
  | none => exact t.total_erase f v.id
  | some r =>
    have hput := t.total_put f r
    rw [id_of_nextRecord hnext] at hput
    exact hput

/-- A view changes its own record only. -/
theorem find?_nextStatement (t : ViewTable) (w : Window) (v : ParsedView) (id : Int) :
    ((nextStatement w (t.find? v.id) v).toList.foldl ViewTable.apply t).find? id =
      if id = v.id then nextRecord w (t.find? v.id) v else t.find? id := by
  rw [apply_nextStatement]
  cases hnext : nextRecord w (t.find? v.id) v with
  | none => exact ViewTable.find?_erase t v.id id
  | some r =>
    show (t.put r).find? id = _
    rw [ViewTable.find?_put, id_of_nextRecord hnext]
    by_cases hid : id = v.id
    · rw [if_pos hid, if_pos hid.symm]
    · rw [if_neg hid, if_neg (Ne.symm hid)]

/-- The records after a view are the former ones and the one that it leaves behind. -/
theorem mem_nextStatement
    (h : r ∈ ((nextStatement w (t.find? v.id) v).toList.foldl ViewTable.apply t).toList) :
    nextRecord w (t.find? v.id) v = some r ∨ r ∈ t.toList := by
  rw [apply_nextStatement] at h
  cases hnext : nextRecord w (t.find? v.id) v with
  | none =>
    rw [hnext] at h
    exact .inr (List.mem_filter.1 h).1
  | some next =>
    rw [hnext] at h
    rcases mem_putRecord h with rfl | h
    · exact .inl rfl
    · exact .inr h

/-! ### The two times of a record -/

theorem distance_self (a : Instant) : a.distance a = 0 := by
  simp [Instant.distance, Instant.since, Instant.leapAdjustment]

theorem overlaps_self (w : Window) (a : Instant) : w.overlaps a a = true := by
  simp [Window.overlaps, distance_self]

/-- A move is judged against the first time of the record, and that is what the record keeps. -/
theorem overlaps_nextRecord {previous : Option ViewRecord}
    (hprev : ∀ r₀ ∈ previous, w.overlaps r₀.timeOriginal r₀.timeMain = true)
    (h : nextRecord w previous v = some r) : w.overlaps r.timeOriginal r.timeMain = true := by
  unfold nextRecord nextStatement at h
  cases previous with
  | none =>
    cases hd : v.disabled
    · rw [hd] at h
      cases h
      exact overlaps_self w v.time
    · rw [hd] at h
      cases h
  | some r₀ =>
    cases hd : v.disabled
    · rw [hd] at h
      cases h
      simp only [updatedRecord]
      by_cases hredo : classifyUpdate w r₀ v = .redo
      · rw [if_pos hredo]
        exact overlaps_self w v.time
      · rw [if_neg hredo]
        unfold classifyUpdate at hredo
        by_cases hsame : r₀.timeMain = v.time
        · rw [← hsame]
          exact hprev r₀ rfl
        · rw [if_neg hsame] at hredo
          cases hnear : w.overlaps r₀.timeOriginal v.time
          · rw [hnear] at hredo
            exact absurd rfl hredo
          · rfl
    · rw [hd] at h
      cases h

end PinLedger
