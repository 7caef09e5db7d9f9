/-!
# PinLedger.Text.Decimal

Decimal digits of natural numbers.

* `digit` — the character of one digit
* `decimal` — the digits of a number, without leading zeros
* `padded` — exactly so many digits, the lowest ones
* `digitValue?`, `value` — reading digits back
-/

namespace PinLedger.Text

/-- The character of a digit; larger numbers count modulo ten. -/
def digit (n : Nat) : Char := Char.ofNat (48 + n % 10)

/-- The digits of `n`, highest first, a single zero for zero. -/
def decimal (n : Nat) : List Char :=
  if n < 10 then [digit n] else decimal (n / 10) ++ [digit n]

/-- The `width` lowest digits of `n`, with zeros in front where `n` is shorter. -/
def padded : (width n : Nat) → List Char
  | 0, _ => []
  | w + 1, n => padded w (n / 10) ++ [digit n]

/-- The digits of an integer, a minus sign before the negative ones. -/
def signed (n : Int) : List Char :=
  if n < 0 then '-' :: decimal n.natAbs else decimal n.natAbs

def digitValue? (c : Char) : Option Nat :=
  if '0' ≤ c ∧ c ≤ '9' then some (c.toNat - 48) else none

def isDigit (c : Char) : Bool := (digitValue? c).isSome

/-- The number a row of digits stands for; characters that are no digits count as zero. -/
def value (ds : List Char) : Nat :=
  ds.foldl (fun n c => 10 * n + (digitValue? c).getD 0) 0

@[simp] theorem length_padded (w n : Nat) : (padded w n).length = w := by
  induction w generalizing n with
  | zero => rfl
  | succ w ih => simp [padded, ih]

end PinLedger.Text
