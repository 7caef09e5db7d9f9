import Mathlib.Algebra.GroupWithZero.Nat
import PinLedger.NameSet

/-!
# PinLedger.Proofs.NameSet

Sets of texts are equal when they have the same members, and a set is cut by another one into what
both have and what only the first has.

* `NameSet.ext` — extensionality
* `NameSet.sum_diff_add_sum_inter` — a sum over a set, cut by another set
-/

namespace PinLedger
namespace NameSet

theorem nodup (s : NameSet) : s.toList.Nodup := by
  refine List.Pairwise.imp ?_ s.increasing
  intro a b hlt heq
  subst heq
  exact String.lt_irrefl a hlt

theorem ext {s t : NameSet} (h : ∀ x, x ∈ s ↔ x ∈ t) : s = t := by
  have hperm : s.toList.Perm t.toList := (List.perm_ext_iff_of_nodup s.nodup t.nodup).2 h
  have heq : s.toList = t.toList := by
    refine hperm.eq_of_pairwise ?_ s.increasing t.increasing
    intro a b _ _ hab hba
    exact absurd (String.lt_trans hab hba) (String.lt_irrefl a)
  cases s
  cases t
  cases heq
  rfl

/-- The set of the members of a set. -/
theorem ofList_toList (s : NameSet) : ofList s.toList = s :=
  ext fun _ => mem_ofList

theorem inter_comm (s t : NameSet) : s.inter t = t.inter s := by
  apply ext
  intro x
  rw [mem_inter, mem_inter, and_comm]

theorem diff_self (s : NameSet) : s.diff s = .empty := by
  apply ext
  intro x
  rw [mem_diff]
  constructor
  · rintro ⟨hx, hnot⟩
    exact absurd hx hnot
  · intro hx
    cases hx

/-- A sum over a list is the sum over what passes a test and what does not. -/
theorem sum_filter_add_sum_filter_not (f : String → Nat) (p : String → Bool) (l : List String) :
    ((l.filter fun x => !p x).map f).sum + ((l.filter p).map f).sum = (l.map f).sum := by
  induction l with
  | nil => rfl
  | cons x l ih =>
    cases h : p x
    · simp only [List.filter_cons, h, Bool.not_false, if_true, Bool.false_eq_true, if_false,
        List.map_cons, List.sum_cons]
      omega
    · simp only [List.filter_cons, h, Bool.not_true, if_true, Bool.false_eq_true, if_false,
        List.map_cons, List.sum_cons]
      omega

theorem sum_diff_add_sum_inter (f : String → Nat) (s t : NameSet) :
    ((s.diff t).toList.map f).sum + ((s.inter t).toList.map f).sum = (s.toList.map f).sum := by
  have h := sum_filter_add_sum_filter_not f (fun x => decide (x ∈ t)) s.toList
  simpa only [diff, inter, decide_not] using h

end NameSet
end PinLedger
