import PinLedger.Text.Lines

/-!
# PinLedger.Proofs.Text.Lines

What the lines of a text are. A text is its lines with their ends: no line holds a line feed, and
only a carriage return right before one belongs to the end of a line.

* `lines_append` — the first line, and those that follow it
* `byLine` — induction on a text, line by line
* `Lined`, `lined_lines` — a text and its lines
-/

namespace PinLedger.Text

variable {l s : List Char}

theorem splitLine_append (h : '\n' ∉ l) (s : List Char) :
    splitLine (l ++ '\n' :: s) = (l, some s) := by
  induction l with
  | nil => rfl
  | cons c l ih =>
    rw [List.mem_cons, not_or] at h
    rw [List.cons_append, splitLine, if_neg (Ne.symm h.1), ih h.2]

theorem splitLine_of_not_mem (h : '\n' ∉ l) : splitLine l = (l, none) := by
  induction l with
  | nil => rfl
  | cons c l ih =>
    rw [List.mem_cons, not_or] at h
    rw [splitLine, if_neg (Ne.symm h.1), ih h.2]

theorem lines_nil : lines [] = [] := by
  rw [lines, List.isEmpty_nil, if_pos rfl]

theorem lines_append (h : '\n' ∉ l) (s : List Char) :
    lines (l ++ '\n' :: s) = dropReturn l :: lines s := by
  rw [lines, if_neg (by simp)]
  split
  · rename_i line heq
    rw [splitLine_append h] at heq
    cases heq
  · rename_i line rest heq
    rw [splitLine_append h] at heq
    cases heq
    rfl

theorem lines_of_not_mem (h : '\n' ∉ l) (hl : l ≠ []) : lines l = [l] := by
  rw [lines, if_neg (by simpa using hl)]
  split
  · rename_i line heq
    rw [splitLine_of_not_mem h] at heq
    cases heq
    rfl
  · rename_i line rest heq
    rw [splitLine_of_not_mem h] at heq
    cases heq

theorem dropReturn_concat (l : List Char) : dropReturn (l ++ ['\r']) = l := by
  simp [dropReturn]

theorem dropReturn_of_ne (h : l.getLast? ≠ some '\r') : dropReturn l = l := if_neg h

/-- A text is empty, or a last line without an end, or a line in front of a text. -/
@[elab_as_elim]
theorem byLine {P : List Char → Prop} (nil : P [])
    (last : ∀ l, '\n' ∉ l → l ≠ [] → P l)
    (line : ∀ l s, '\n' ∉ l → P s → P (l ++ '\n' :: s)) (s : List Char) : P s := by
  by_cases hs : '\n' ∈ s
  · obtain ⟨l, rest, heq, hl⟩ := List.eq_append_cons_of_mem hs
    have hshorter : rest.length < s.length := by
      rw [heq, List.length_append, List.length_cons]
      omega
    rw [heq]
    exact line l rest hl (byLine nil last line rest)
  · by_cases hnil : s = []
    · exact hnil ▸ nil
    · exact last s hs hnil
termination_by s.length

/-- A text and its lines. A line feed ends a line, alone or after a carriage return; at the end of
the text it may be missing, unless there is nothing before it. -/
inductive Lined : List (List Char) → List Char → Prop where
  | nil : Lined [] []
  | last {l : List Char} : '\n' ∉ l → l ≠ [] → Lined [l] l
  | feed {l s : List Char} {ls : List (List Char)} :
    '\n' ∉ l → l.getLast? ≠ some '\r' → Lined ls s → Lined (l :: ls) (l ++ '\n' :: s)
  | returnFeed {l s : List Char} {ls : List (List Char)} :
    '\n' ∉ l → Lined ls s → Lined (l :: ls) (l ++ '\r' :: '\n' :: s)

theorem lined_lines (s : List Char) : Lined (lines s) s := by
  induction s using byLine with
  | nil =>
    rw [lines_nil]
    exact .nil
  | last l h hl =>
    rw [lines_of_not_mem h hl]
    exact .last h hl
  | line l s h ih =>
    rw [lines_append h]
    by_cases hr : l.getLast? = some '\r'
    · obtain ⟨l, rfl⟩ := List.getLast?_eq_some_iff.1 hr
      rw [dropReturn_concat, List.append_assoc]
      exact .returnFeed (fun hmem => h (List.mem_append_left _ hmem)) ih
    · rw [dropReturn_of_ne hr]
      exact .feed h hr ih

end PinLedger.Text
