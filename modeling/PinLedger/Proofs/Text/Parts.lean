import PinLedger.Proofs.Text.Blank
import PinLedger.Text.Parts

/-!
# PinLedger.Proofs.Text.Parts

Taking a text apart and putting it together again undo each other. Blanks around the text end up
around its first and its last piece, so that it does not matter whether the text is trimmed before
its pieces are.

* `parts_eq_splitOn`, `joined_eq_intercalate` — the operations on lists that these are
* `parts_eq_iff` — the pieces hold no separator and give the text when they are joined
* `map_trim_parts_trim` — the trimmed pieces of a trimmed text
-/

namespace PinLedger.Text

variable {sep : Char} {a b p s : List Char} {ps : List (List Char)}

theorem parts_eq_splitOn (sep : Char) (s : List Char) : parts sep s = s.splitOn sep := by
  induction s with
  | nil => rfl
  | cons c s ih =>
    rw [List.splitOn_cons_eq_if_modifyHead]
    by_cases h : c = sep
    · simp [parts, h, ih]
    · simp only [parts, if_neg h, beq_iff_eq, ih]
      cases hs : s.splitOn sep with
      | nil => exact absurd hs (List.splitOn_ne_nil sep s)
      | cons p ps => rfl

theorem joined_eq_intercalate (sep : List Char) (ps : List (List Char)) :
    joined sep ps = sep.intercalate ps := by
  induction ps with
  | nil => rfl
  | cons p ps ih =>
    cases ps with
    | nil => simp [joined]
    | cons q ps => rw [joined, ih, List.intercalate_cons_cons]

theorem not_mem_of_mem_parts (h : p ∈ parts sep s) : sep ∉ p := by
  induction s generalizing p with
  | nil =>
    rw [List.mem_singleton.1 h]
    exact List.not_mem_nil
  | cons c s ih =>
    unfold parts at h
    by_cases hc : c = sep
    · rw [if_pos hc] at h
      rcases List.mem_cons.1 h with rfl | h
      · exact List.not_mem_nil
      · exact ih h
    · rw [if_neg hc] at h
      cases hparts : parts sep s with
      | nil => exact absurd hparts (parts_ne_nil sep s)
      | cons q qs =>
        rw [hparts] at h
        rcases List.mem_cons.1 h with rfl | h
        · rw [List.mem_cons, not_or]
          exact ⟨Ne.symm hc, ih (hparts ▸ List.mem_cons_self)⟩
        · exact ih (hparts ▸ List.mem_cons_of_mem q h)

theorem parts_eq_iff (hps : ps ≠ []) :
    parts sep s = ps ↔ s = joined [sep] ps ∧ ∀ p ∈ ps, sep ∉ p := by
  constructor
  · rintro rfl
    refine ⟨?_, fun p hp => not_mem_of_mem_parts hp⟩
    rw [joined_eq_intercalate, parts_eq_splitOn, List.intercalate_splitOn]
  · rintro ⟨rfl, h⟩
    rw [joined_eq_intercalate, parts_eq_splitOn, List.splitOn_intercalate sep h hps]

/-! ### Blanks around a text -/

theorem joined_append_head (sep a p : List Char) (ps : List (List Char)) :
    joined sep ((a ++ p) :: ps) = a ++ joined sep (p :: ps) := by
  cases ps with
  | nil => rfl
  | cons q ps => simp [joined]

theorem joined_append_last (sep p b : List Char) (ps : List (List Char)) :
    joined sep (ps ++ [p ++ b]) = joined sep (ps ++ [p]) ++ b := by
  induction ps with
  | nil => rfl
  | cons q ps ih =>
    cases ps with
    | nil => simp [joined]
    | cons q' ps =>
      rw [List.cons_append, List.cons_append, joined, ← List.cons_append, ih]
      simp [joined]

theorem not_mem_of_blank (hsep : isBlank sep = false) (ha : ∀ c ∈ a, isBlank c = true) :
    sep ∉ a := by
  intro hmem
  rw [ha sep hmem] at hsep
  cases hsep

theorem map_trim_parts_append_left (hsep : isBlank sep = false)
    (ha : ∀ c ∈ a, isBlank c = true) (s : List Char) :
    (parts sep (a ++ s)).map trim = (parts sep s).map trim := by
  obtain ⟨p, ps, hparts⟩ := List.exists_cons_of_ne_nil (parts_ne_nil sep s)
  obtain ⟨hs, hout⟩ := (parts_eq_iff (List.cons_ne_nil p ps)).1 hparts
  obtain ⟨hp, hps⟩ := List.forall_mem_cons.1 hout
  have hpadded : parts sep (a ++ s) = (a ++ p) :: ps := by
    rw [parts_eq_iff (List.cons_ne_nil _ ps), joined_append_head, ← hs, List.forall_mem_cons,
      List.mem_append, not_or]
    exact ⟨rfl, ⟨not_mem_of_blank hsep ha, hp⟩, hps⟩
  rw [hpadded, hparts, List.map_cons, List.map_cons, trim_append_left ha]

theorem map_trim_parts_append_right (hsep : isBlank sep = false)
    (hb : ∀ c ∈ b, isBlank c = true) (s : List Char) :
    (parts sep (s ++ b)).map trim = (parts sep s).map trim := by
  obtain ⟨ps, p, hparts⟩ :=
    (List.eq_nil_or_concat' (parts sep s)).resolve_left (parts_ne_nil sep s)
  have hne : ∀ q, ps ++ [q] ≠ [] := fun q =>
    List.append_ne_nil_of_right_ne_nil ps (List.cons_ne_nil q [])
  obtain ⟨hs, hout⟩ := (parts_eq_iff (hne p)).1 hparts
  obtain ⟨hps, hp⟩ := List.forall_mem_append.1 hout
  have hpadded : parts sep (s ++ b) = ps ++ [p ++ b] := by
    rw [parts_eq_iff (hne _), joined_append_last, ← hs, List.forall_mem_append,
      List.forall_mem_singleton, List.mem_append, not_or]
    exact ⟨rfl, hps, hp p List.mem_cons_self, not_mem_of_blank hsep hb⟩
  rw [hpadded, hparts, List.map_append, List.map_append, List.map_singleton, List.map_singleton,
    trim_append_right hb]

theorem map_trim_parts_trim (hsep : isBlank sep = false) (s : List Char) :
    (parts sep (trim s)).map trim = (parts sep s).map trim := by
  obtain ⟨a, b, ha, hb, hs⟩ := exists_trim s
  calc (parts sep (trim s)).map trim
      = (parts sep (a ++ trim s)).map trim := (map_trim_parts_append_left hsep ha _).symm
    _ = (parts sep (a ++ trim s ++ b)).map trim := (map_trim_parts_append_right hsep hb _).symm
    _ = (parts sep s).map trim := by rw [← hs]

end PinLedger.Text
