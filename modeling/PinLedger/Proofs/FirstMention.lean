import Mathlib.Data.List.Basic
import Mathlib.Data.List.Induction

/-!
# PinLedger.Proofs.FirstMention

Lists without repetitions, in the order of the first mention.

* `eraseDups_concat_of_mem`, `eraseDups_concat_of_not_mem` — one element more
* `nodup_eraseDups` — nothing is left twice
* `pairwise_idxOf_eraseDups` — what is left stands in the order of its first mention
-/

namespace PinLedger

variable {α : Type} [BEq α] [LawfulBEq α] {a : α} {l : List α}

theorem eraseDups_concat_of_mem (h : a ∈ l) : (l ++ [a]).eraseDups = l.eraseDups := by
  rw [List.eraseDups_append]
  simp [List.removeAll, h]

theorem eraseDups_concat_of_not_mem (h : a ∉ l) :
    (l ++ [a]).eraseDups = l.eraseDups ++ [a] := by
  rw [List.eraseDups_append]
  simp [List.removeAll, List.eraseDups_cons, h]

theorem nodup_eraseDups (l : List α) : l.eraseDups.Nodup := by
  induction l using List.reverseRecOn with
  | nil => simp
  | append_singleton l a ih =>
    by_cases h : a ∈ l
    · rw [eraseDups_concat_of_mem h]
      exact ih
    · rw [eraseDups_concat_of_not_mem h, List.nodup_append]
      refine ⟨ih, List.pairwise_singleton _ a, ?_⟩
      rintro b hb c hc rfl
      rw [List.mem_singleton] at hc
      exact h (hc ▸ List.mem_eraseDups.1 hb)

/-- A list that has no repetitions is left as it is. -/
theorem eraseDups_of_nodup (h : l.Nodup) : l.eraseDups = l := by
  induction l using List.reverseRecOn with
  | nil => simp
  | append_singleton l a ih =>
    obtain ⟨hl, _, hne⟩ := List.nodup_append.1 h
    have ha : a ∉ l := fun ha => hne a ha a List.mem_cons_self rfl
    rw [eraseDups_concat_of_not_mem ha, ih hl]

theorem pairwise_idxOf_eraseDups (l : List α) :
    l.eraseDups.Pairwise fun a b => l.idxOf a < l.idxOf b := by
  induction l using List.reverseRecOn with
  | nil => simp
  | append_singleton l a ih =>
    -- what has been mentioned before keeps its place
    have hkept : l.eraseDups.Pairwise fun b c => (l ++ [a]).idxOf b < (l ++ [a]).idxOf c := by
      refine ih.imp_of_mem fun hb hc hlt => ?_
      rw [List.idxOf_append_of_mem (List.mem_eraseDups.1 hb),
        List.idxOf_append_of_mem (List.mem_eraseDups.1 hc)]
      exact hlt
    by_cases h : a ∈ l
    · rw [eraseDups_concat_of_mem h]
      exact hkept
    · rw [eraseDups_concat_of_not_mem h, List.pairwise_append]
      refine ⟨hkept, List.pairwise_singleton _ a, ?_⟩
      intro b hb c hc
      have hb := List.mem_eraseDups.1 hb
      rw [List.mem_singleton.1 hc, List.idxOf_append_of_mem hb, List.idxOf_append_of_notMem h]
      exact Nat.lt_of_lt_of_le (List.idxOf_lt_length_of_mem hb) (Nat.le_add_right _ _)

end PinLedger
