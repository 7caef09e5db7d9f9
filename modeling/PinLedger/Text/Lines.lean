/-!
# PinLedger.Text.Lines

The lines of a text. A line ends with a line feed, which may follow a carriage return; the last line
may lack its end.

* `lines` — the lines without their ends
-/

namespace PinLedger.Text

/-- The text up to the first line feed, and what follows it if there is one. -/
def splitLine : List Char → List Char × Option (List Char)
  | [] => ([], none)
  | c :: rest =>
    if c = '\n' then ([], some rest)
    else (c :: (splitLine rest).1, (splitLine rest).2)

theorem splitLine_length {s line rest : List Char} (h : splitLine s = (line, some rest)) :
    rest.length < s.length := by
  induction s generalizing line with
  | nil => simp [splitLine] at h
  | cons c s ih =>
    simp only [splitLine] at h
    split at h
    · simp only [Prod.mk.injEq, Option.some.injEq] at h
      simp [h.2]
    · simp only [Prod.mk.injEq] at h
      exact Nat.lt_succ_of_lt (ih (Prod.ext rfl h.2))

/-- A line that ended with a line feed, without the carriage return before it. -/
def dropReturn (line : List Char) : List Char :=
  if line.getLast? = some '\r' then line.dropLast else line

/-- The lines of a text. Nothing follows the last line feed unless there are characters. -/
def lines (s : List Char) : List (List Char) :=
  if s.isEmpty then []
  else
    match _h : splitLine s with
    | (line, none) => [line]
    | (line, some rest) => dropReturn line :: lines rest
termination_by s.length
decreasing_by exact splitLine_length ‹_›

end PinLedger.Text
