/-!
# PinLedger.Text.Parts

Taking a text apart at a separator and putting it together again.

* `parts` — the pieces between the separators, at least one
* `joined` — pieces with a separator between them
-/

namespace PinLedger.Text

/-- The pieces of a text between the characters `sep`. -/
def parts (sep : Char) : List Char → List (List Char)
  | [] => [[]]
  | c :: rest =>
    if c = sep then [] :: parts sep rest
    else
      match parts sep rest with
      | [] => [[c]]
      | p :: ps => (c :: p) :: ps

def joined (sep : List Char) : List (List Char) → List Char
  | [] => []
  | [p] => p
  | p :: q :: ps => p ++ sep ++ joined sep (q :: ps)

theorem parts_ne_nil (sep : Char) (s : List Char) : parts sep s ≠ [] := by
  cases s with
  | nil => simp [parts]
  | cons c rest => simp only [parts]; split <;> (try split) <;> simp

end PinLedger.Text
