import PinLedger.Number.Binary64
import PinLedger.Text.Decimal

/-!
# PinLedger.Number.Shortest

The decimal text of a binary number: the fewest digits that read back as the number, and of those
the nearest ones.

* `Binary64.shortest` — the digits and their exponent
* `FloatFormat` — where positional writing ends
* `FloatFormat.render` — the text
-/

namespace PinLedger

open Text

namespace Binary64

/-- The exponent of the first decimal digit of `a / b`, which is not zero. -/
def decimalExponent (a b : Nat) : Int :=
  if b ≤ a then ((decimal (a / b)).length : Int) - 1
  else -(below 400 1 : Nat)
where
  /-- The first `j` from which on `a * 10 ^ j` reaches `b`. -/
  below : (fuel j : Nat) → Nat
    | 0, j => j
    | fuel + 1, j => if b ≤ a * Nat.pow 10 j then j else below fuel (j + 1)

/-- On the grid of the multiples of `10 ^ k`, the neighbours of the number `4 * a / b` that read
back as the number, which are those from `lo / b` to `hi / b`. The nearer one, of two the even one.
-/
def hitOnGrid (a lo hi b : Nat) (closed : Bool) (k : Int) : Option Nat :=
  let up := if 0 ≤ k then Nat.pow 10 k.toNat else 1
  let down := if 0 ≤ k then 1 else Nat.pow 10 (-k).toNat
  let c := 4 * a * down / (b * up)
  let atLeast := if closed then lo * down ≤ c * b * up else lo * down < c * b * up
  let atMost := if closed then (c + 1) * b * up ≤ hi * down else (c + 1) * b * up < hi * down
  let toLower := 4 * a * down - c * b * up
  let toUpper := (c + 1) * b * up - 4 * a * down
  if atLeast ∧ atMost then
    if toLower < toUpper then some c
    else if toUpper < toLower then some (c + 1)
    else some (c + c % 2)
  else if atLeast then some c
  else if atMost then some (c + 1)
  else none

/-- The first grid with a hit, from coarse to fine. -/
def firstHit (a lo hi b : Nat) (closed : Bool) (exponent : Int) : (fuel n : Nat) → Nat × Int
  | 0, n => (0, exponent - n)
  | fuel + 1, n =>
    match hitOnGrid a lo hi b closed (exponent - n) with
    | some c => (c, exponent - n)
    | none => firstHit a lo hi b closed exponent fuel (n + 1)

def stripZeros : (fuel : Nat) → Nat × Int → Nat × Int
  | 0, d => d
  | fuel + 1, (c, k) => if c % 10 = 0 ∧ c ≠ 0 then stripZeros fuel (c / 10, k + 1) else (c, k)

/-- The fewest digits that read back as the number, and the exponent of the last of them. -/
def shortest (x : Binary64) : Nat × Int :=
  if x.mantissa = 0 then (0, 0)
  else
    let (a, b) := x.ratio
    -- the number is `4 * a / (4 * b)`; its neighbours are `step / (4 * b)` away, or half of that
    let step := if 0 ≤ x.exponent then 4 * Nat.pow 2 x.exponent.toNat else 4
    let narrow := x.mantissa = Nat.pow 2 52 ∧ leastExponent < x.exponent
    let lo := 4 * a - (if narrow then step / 4 else step / 2)
    let hi := 4 * a + step / 2
    let found := firstHit a lo hi (4 * b) (x.mantissa % 2 = 0) (decimalExponent a b) 18 0
    stripZeros 20 found

end Binary64

/-- Numbers whose first digit has an exponent in the range are written positionally. -/
structure FloatFormat where
  positional : Option (Int × Int)

namespace FloatFormat

/-- At least two digits for an exponent, and always its sign. -/
def renderExponent (e : Int) : List Char :=
  (if e < 0 then '-' else '+') ::
    (if e.natAbs < 100 then padded 2 e.natAbs else decimal e.natAbs)

/-- The text of a number. Positional writing has a digit on either side of the point. -/
def render (f : FloatFormat) (negative : Bool) (x : Binary64) : List Char :=
  let (c, k) := x.shortest
  let ds := decimal c
  let first : Int := k + ds.length - 1
  let positional := match f.positional with
    | none => true
    | some (lo, hi) => c = 0 ∨ (lo ≤ first ∧ first ≤ hi)
  let body :=
    if positional then
      if 0 ≤ k then ds ++ List.replicate k.toNat '0' ++ ['.', '0']
      else if 0 ≤ first then
        ds.take (first.toNat + 1) ++ '.' :: ds.drop (first.toNat + 1)
      else ['0', '.'] ++ List.replicate (-first - 1).toNat '0' ++ ds
    else
      match ds with
      | [d] => d :: 'e' :: renderExponent first
      | d :: rest => d :: '.' :: rest ++ 'e' :: renderExponent first
      | [] => []
  if negative then '-' :: body else body

end FloatFormat

end PinLedger
