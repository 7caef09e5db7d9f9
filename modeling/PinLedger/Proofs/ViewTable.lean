import Mathlib.Algebra.GroupWithZero.Nat
import PinLedger.Statement

/-!
# PinLedger.Proofs.ViewTable

A number summed over the records of a table, and how a change of the records changes it.

* `ViewTable.total` — the sum over all records
* `total_put`, `total_erase` — adding, replacing and dropping a record
* `ViewTable.eq_of_find?` — tables that answer alike are equal
* `ViewTable.touchedEach` — how many records each of some statements touches
-/

namespace PinLedger

/-- The sum of a number over all records. -/
def ViewTable.total (t : ViewTable) (f : ViewRecord → Nat) : Nat := (t.toList.map f).sum

theorem find?_id_eq_none {l : List ViewRecord} {id : Int} (h : ∀ s ∈ l, id < s.id) :
    l.find? (fun s => s.id = id) = none := by
  rw [List.find?_eq_none]
  intro s hs heq
  have hlt := h s hs
  have hid : s.id = id := of_decide_eq_true heq
  omega

theorem sum_putRecord (f : ViewRecord → Nat) (r : ViewRecord) (l : List ViewRecord)
    (h : l.Pairwise fun a b => a.id < b.id) :
    ((putRecord r l).map f).sum + (l.find? fun s => s.id = r.id).elim 0 f =
      (l.map f).sum + f r := by
  fun_induction putRecord r l with
  | case1 => simp
  | case2 s rest hlt =>
    have hnone : (s :: rest).find? (fun s => s.id = r.id) = none := by
      apply find?_id_eq_none
      intro s' hs'
      rcases List.mem_cons.1 hs' with rfl | hs'
      · exact hlt
      · exact Int.lt_trans hlt (List.rel_of_pairwise_cons h hs')
    rw [hnone, List.map_cons, List.sum_cons]
    simp only [Option.elim_none]
    omega
  | case3 s rest _ heq =>
    rw [List.find?_cons_of_pos (by simp [heq])]
    simp only [List.map_cons, List.sum_cons, Option.elim_some]
    omega
  | case4 s rest hlt hne ih =>
    have hrest := ih h.of_cons
    rw [List.find?_cons_of_neg (by simp; omega)]
    simp only [List.map_cons, List.sum_cons]
    omega

theorem sum_erase (f : ViewRecord → Nat) (id : Int) (l : List ViewRecord)
    (h : l.Pairwise fun a b => a.id < b.id) :
    ((l.filter fun s => s.id ≠ id).map f).sum + (l.find? fun s => s.id = id).elim 0 f =
      (l.map f).sum := by
  induction l with
  | nil => rfl
  | cons s rest ih =>
    by_cases hs : s.id = id
    · have hrest : (rest.filter fun s => s.id ≠ id) = rest := by
        rw [List.filter_eq_self]
        intro s' hs'
        have hlt := List.rel_of_pairwise_cons h hs'
        simp only [ne_eq, decide_eq_true_eq]
        omega
      rw [List.find?_cons_of_pos (by simp [hs]), List.filter_cons_of_neg (by simp [hs]), hrest]
      simp only [List.map_cons, List.sum_cons, Option.elim_some]
      omega
    · have hrest := ih h.of_cons
      rw [List.find?_cons_of_neg (by simp [hs]), List.filter_cons_of_pos (by simp [hs])]
      simp only [List.map_cons, List.sum_cons]
      omega

namespace ViewTable

theorem total_put (t : ViewTable) (f : ViewRecord → Nat) (r : ViewRecord) :
    (t.put r).total f + (t.find? r.id).elim 0 f = t.total f + f r :=
  sum_putRecord f r t.toList t.increasing

theorem total_erase (t : ViewTable) (f : ViewRecord → Nat) (id : Int) :
    (t.erase id).total f + (t.find? id).elim 0 f = t.total f :=
  sum_erase f id t.toList t.increasing

theorem erase_of_find? {t : ViewTable} {id : Int} (h : t.find? id = none) : t.erase id = t := by
  obtain ⟨l, hl⟩ := t
  have hfilter : (l.filter fun s => s.id ≠ id) = l := by
    rw [List.filter_eq_self]
    intro s hs
    have hne := List.find?_eq_none.1 h s hs
    simpa using hne
  unfold erase
  simp only [hfilter]

theorem mem_of_find? {t : ViewTable} {id : Int} {r : ViewRecord} (h : t.find? id = some r) :
    r ∈ t.toList :=
  List.mem_of_find?_eq_some h

theorem find?_of_mem {t : ViewTable} {r : ViewRecord} (h : r ∈ t.toList) :
    t.find? r.id = some r := by
  obtain ⟨l, hl⟩ := t
  unfold find?
  induction l with
  | nil => cases h
  | cons s rest ih =>
    rcases List.mem_cons.1 h with rfl | hr
    · exact List.find?_cons_of_pos (by simp)
    · have hlt := List.rel_of_pairwise_cons hl hr
      have hne : s.id ≠ r.id := by omega
      rw [List.find?_cons_of_neg (by simp [hne])]
      exact ih hl.of_cons hr

theorem eq_of_find? {t t' : ViewTable} (h : ∀ id, t.find? id = t'.find? id) : t = t' := by
  have hmem : ∀ r, r ∈ t.toList ↔ r ∈ t'.toList := by
    intro r
    constructor
    · intro hr
      exact mem_of_find? ((h r.id).symm.trans (find?_of_mem hr))
    · intro hr
      exact mem_of_find? ((h r.id).trans (find?_of_mem hr))
  have hnodup : ∀ u : ViewTable, u.toList.Nodup := by
    intro u
    refine u.increasing.imp ?_
    rintro r s hlt rfl
    omega
  have hperm := (List.perm_ext_iff_of_nodup (hnodup t) (hnodup t')).2 hmem
  have hlist : t.toList = t'.toList := by
    refine hperm.eq_of_pairwise ?_ t.increasing t'.increasing
    intro r s _ _ hlt hlt'
    omega
  obtain ⟨l, hl⟩ := t
  obtain ⟨l', hl'⟩ := t'
  cases hlist
  rfl

/-- How many records each of some statements touches, carried out one after another. -/
def touchedEach : ViewTable → List ViewStatement → List Nat
  | _, [] => []
  | t, v :: rest => t.touched v :: touchedEach (t.apply v) rest

theorem touchedEach_append (t : ViewTable) (l l' : List ViewStatement) :
    t.touchedEach (l ++ l') = t.touchedEach l ++ (l.foldl apply t).touchedEach l' := by
  induction l generalizing t with
  | nil => rfl
  | cons v l ih => simp only [List.cons_append, touchedEach, ih, List.foldl_cons]

end ViewTable

end PinLedger
