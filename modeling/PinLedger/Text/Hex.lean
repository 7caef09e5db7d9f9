/-!
# PinLedger.Text.Hex

Hexadecimal digits.

* `hexValue?` — the value of a digit
* `hexadecimal` — the digits of a number
-/

namespace PinLedger.Text

/-- The value of a hexadecimal digit, of which letters may be small or large. -/
def hexValue? (c : Char) : Option Nat :=
  if '0' ≤ c ∧ c ≤ '9' then some (c.toNat - 48)
  else if 'a' ≤ c ∧ c ≤ 'f' then some (c.toNat - 87)
  else if 'A' ≤ c ∧ c ≤ 'F' then some (c.toNat - 55)
  else none

/-- The digit of a value below 16, with small letters. -/
def hexDigit (n : Nat) : Char := Char.ofNat (if n < 10 then 48 + n else 87 + n)

/-- The digits of `n`, highest first, a single zero for zero. -/
def hexadecimal (n : Nat) : List Char :=
  if n < 16 then [hexDigit n] else hexadecimal (n / 16) ++ [hexDigit (n % 16)]

end PinLedger.Text
