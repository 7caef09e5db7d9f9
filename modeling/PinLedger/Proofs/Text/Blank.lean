import Mathlib.Data.List.DropRight
import PinLedger.Text.Blank

/-!
# PinLedger.Proofs.Text.Blank

Trimming. What has been trimmed starts and ends with no blank, so that trimming it again leaves it as
it is. Only blanks are taken away, and blanks that are put around a text make no difference.

* `exists_trim` — a text is what it is trimmed to, with blanks around it
* `trim_append_left`, `trim_append_right` — blanks before a text, and after it
* `trim_ne_nil`, `head?_trim_append` — what is not blank stays, and stays in front
* `trimmed_trimmed` — of strings
-/

namespace PinLedger.Text

variable {a b p s : List Char}

theorem trimEnd_isPrefix (s : List Char) : trimEnd s <+: s := List.rdropWhile_prefix isBlank s

/-- What is left of a text at its front does not start with a blank either. -/
theorem trimStart_of_prefix {s t : List Char} (h : s <+: t) (ht : trimStart t = t) :
    trimStart s = s := by
  cases s with
  | nil => rfl
  | cons c s =>
    obtain ⟨rest, rfl⟩ := h
    cases hc : isBlank c with
    | true =>
      have hlen := (List.dropWhile_sublist (l := s ++ rest) isBlank).length_le
      have hself := congrArg List.length ht
      rw [List.cons_append, trimStart, List.dropWhile_cons_of_pos hc, List.length_cons] at hself
      omega
    | false => exact List.dropWhile_cons_of_neg (by simp [hc])

theorem trim_trim (s : List Char) : trim (trim s) = trim s := by
  have hstart : trimStart (trim s) = trim s :=
    trimStart_of_prefix (trimEnd_isPrefix _) (List.dropWhile_idempotent ..)
  have hend : trimEnd (trim s) = trim s := List.rdropWhile_idempotent ..
  unfold trim at hstart hend ⊢
  rw [hstart, hend]

/-- What is trimmed away are blanks. -/
theorem exists_trim (s : List Char) :
    ∃ a b, (∀ c ∈ a, isBlank c = true) ∧ (∀ c ∈ b, isBlank c = true) ∧ s = a ++ trim s ++ b := by
  refine ⟨s.takeWhile isBlank, ((trimStart s).reverse.takeWhile isBlank).reverse, ?_, ?_, ?_⟩
  · intro c hc
    exact List.mem_takeWhile_imp hc
  · intro c hc
    exact List.mem_takeWhile_imp (List.mem_reverse.1 hc)
  · have hback : trimStart s = trim s ++ ((trimStart s).reverse.takeWhile isBlank).reverse := by
      unfold trim trimEnd
      rw [← List.reverse_append, List.takeWhile_append_dropWhile, List.reverse_reverse]
    rw [List.append_assoc, ← hback]
    exact List.takeWhile_append_dropWhile.symm

/-! ### Blanks around a text -/

theorem trim_append_left (ha : ∀ c ∈ a, isBlank c = true) (s : List Char) :
    trim (a ++ s) = trim s := by
  unfold trim trimStart
  rw [List.dropWhile_append_of_pos ha]

theorem trimEnd_append_of_blank (hb : ∀ c ∈ b, isBlank c = true) (s : List Char) :
    trimEnd (s ++ b) = trimEnd s := by
  unfold trimEnd
  rw [List.reverse_append, List.dropWhile_append_of_pos]
  intro c hc
  exact hb c (List.mem_reverse.1 hc)

theorem trim_append_right (hb : ∀ c ∈ b, isBlank c = true) (s : List Char) :
    trim (s ++ b) = trim s := by
  have hfront : trimStart (s ++ b) =
      if (trimStart s).isEmpty then trimStart b else trimStart s ++ b := List.dropWhile_append
  unfold trim
  rw [hfront]
  cases hs : trimStart s with
  | nil =>
    have hall : trimStart b = [] := List.dropWhile_eq_nil_iff.2 hb
    rw [hall]
    rfl
  | cons c rest => exact trimEnd_append_of_blank hb _

/-! ### What stays -/

theorem trim_ne_nil {c : Char} (hc : isBlank c = false) (h : c ∈ s) : trim s ≠ [] := by
  intro hnil
  obtain ⟨a, b, ha, hb, hs⟩ := exists_trim s
  rw [hs, hnil, List.append_nil, List.mem_append] at h
  rcases h with h | h
  · rw [ha c h] at hc
    cases hc
  · rw [hb c h] at hc
    cases hc

theorem head?_trim (h : trim s ≠ []) : (trim s).head? = (trimStart s).head? := by
  obtain ⟨rest, hrest⟩ := trimEnd_isPrefix (trimStart s)
  have hne : trimEnd (trimStart s) ≠ [] := h
  rw [← hrest, List.head?_append_of_ne_nil _ hne]
  rfl

/-- What follows a text that is not blank does not change its first character. -/
theorem head?_trim_append (h : trim p ≠ []) (s : List Char) :
    (trim (p ++ s)).head? = (trim p).head? := by
  have hp : trimStart p ≠ [] := by
    intro hnil
    unfold trim at h
    rw [hnil] at h
    exact h rfl
  have hfront : trimStart (p ++ s) = trimStart p ++ s := by
    unfold trimStart at hp ⊢
    rw [List.dropWhile_append, if_neg (by simpa using hp)]
  obtain ⟨c, rest, hc⟩ := List.exists_cons_of_ne_nil hp
  have hnot : isBlank c = false := by
    have hhead := List.head?_dropWhile_not isBlank p
    unfold trimStart at hc
    rw [hc] at hhead
    simpa using hhead
  have hmem : c ∈ trimStart p := hc ▸ List.mem_cons_self
  have hwhole : trim (p ++ s) ≠ [] :=
    trim_ne_nil hnot (List.mem_append_left s ((List.dropWhile_sublist isBlank).subset hmem))
  rw [head?_trim hwhole, head?_trim h, hfront, List.head?_append_of_ne_nil _ hp]

end PinLedger.Text

namespace PinLedger

theorem trimmed_trimmed (s : String) : trimmed (trimmed s) = trimmed s := by
  unfold trimmed
  rw [String.toList_ofList, Text.trim_trim]

end PinLedger
