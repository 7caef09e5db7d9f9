/-!
# PinLedger.Number.Word

The numbers that a word of some bits holds.

* `wordLimit` — one more than the largest natural number
* `signLimit` — the same for a word whose first bit is a sign
* `FitsSigned` — the integers of such a word
-/

namespace PinLedger

/-- The natural numbers below it are those of `bits` bits. -/
def wordLimit (bits : Nat) : Nat := Nat.pow 2 bits

/-- The natural numbers below it are those of `bits` bits of which one is a sign. -/
def signLimit (bits : Nat) : Nat := wordLimit (bits - 1)

/-- A word of `bits` bits with a sign holds the integer. -/
def FitsSigned (bits : Nat) (n : Int) : Prop := -(signLimit bits : Int) ≤ n ∧ n < signLimit bits

instance (bits : Nat) (n : Int) : Decidable (FitsSigned bits n) :=
  inferInstanceAs (Decidable (_ ∧ _))

end PinLedger
