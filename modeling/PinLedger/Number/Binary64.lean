/-!
# PinLedger.Number.Binary64

Numbers of the format with 53 binary digits and exponents from -1074 to 971, rounded to the nearest
one, an exact half to the even one.

* `Binary64` — a number of the format that is not negative
* `Binary64.ofRatio?` — the number nearest to a ratio, if that is not too large
* `Binary64.ofDecimal?` — the number nearest to a decimal number
* `Binary64.scaled?` — a number times a power of ten, in steps that each round
-/

namespace PinLedger

/-- The number `mantissa * 2 ^ exponent`. The mantissa has 53 binary digits, or fewer with the least
exponent. -/
structure Binary64 where
  mantissa : Nat
  exponent : Int
deriving DecidableEq, Repr

namespace Binary64

def leastExponent : Int := -1074

def zero : Binary64 := ⟨0, leastExponent⟩

/-- `a / b` rounded to the nearest integer, a half to the even one. -/
def roundDiv (a b : Nat) : Nat :=
  let n := a / b
  let r := a % b
  if 2 * r < b then n else if b < 2 * r then n + 1 else n + n % 2

/-- `a * 2 ^ -e / b`, rounded. -/
def roundScaled (a b : Nat) (e : Int) : Nat :=
  if 0 ≤ e then roundDiv a (b * Nat.pow 2 e.toNat) else roundDiv (a * Nat.pow 2 (-e).toNat) b

/-- The exponent at which `a / b` has 53 binary digits before the point. -/
def exponentOf (a b : Nat) : Int :=
  let e : Int := (a.log2 : Int) - b.log2 - 52
  let short := if 0 ≤ e then a < b * Nat.pow 2 (e.toNat + 52)
    else a * Nat.pow 2 (-e).toNat < b * Nat.pow 2 52
  max leastExponent (if short then e - 1 else e)

/-- The number nearest to `a / b`, for `b` not zero; `none` if it is beyond the largest. -/
def ofRatio? (a b : Nat) : Option Binary64 :=
  if a = 0 then some zero
  else
    let e := exponentOf a b
    let m := roundScaled a b e
    let x : Binary64 := if m = Nat.pow 2 53 then ⟨Nat.pow 2 52, e + 1⟩ else ⟨m, e⟩
    if 971 < x.exponent then none else some x

/-- The number nearest to `digits * 10 ^ exponent`. -/
def ofDecimal? (digits : Nat) (exponent : Int) : Option Binary64 :=
  if 0 ≤ exponent then ofRatio? (digits * Nat.pow 10 exponent.toNat) 1
  else ofRatio? digits (Nat.pow 10 (-exponent).toNat)

def ratio (x : Binary64) : Nat × Nat :=
  if 0 ≤ x.exponent then (x.mantissa * Nat.pow 2 x.exponent.toNat, 1)
  else (x.mantissa, Nat.pow 2 (-x.exponent).toNat)

def mul? (x y : Binary64) : Option Binary64 :=
  ofRatio? (x.ratio.1 * y.ratio.1) (x.ratio.2 * y.ratio.2)

def div? (x y : Binary64) : Option Binary64 :=
  ofRatio? (x.ratio.1 * y.ratio.2) (x.ratio.2 * y.ratio.1)

def maxPower : Nat := 308

def powerOfTen (n : Nat) : Binary64 := (ofDecimal? 1 n).getD zero

/-- `x * 10 ^ exponent`. What is too small for one step is divided by the largest power of ten
first. -/
def scaleFrom (x : Binary64) : (fuel : Nat) → (exponent : Int) → Option Binary64
  | 0, _ => none
  | fuel + 1, exponent =>
    if exponent.natAbs ≤ maxPower then
      if 0 ≤ exponent then x.mul? (powerOfTen exponent.toNat)
      else x.div? (powerOfTen (-exponent).toNat)
    else if x.mantissa = 0 then some x
    else if 0 ≤ exponent then none
    else
      match x.div? (powerOfTen maxPower) with
      | none => none
      | some y => scaleFrom y fuel (exponent + maxPower)

/-- `significand * 10 ^ exponent`, computed with roundings on the way; `none` if it is too large. -/
def scaled? (significand : Nat) (exponent : Int) : Option Binary64 := do
  let x ← ofRatio? significand 1
  scaleFrom x 8 (if exponent < -2400 then -2400 else exponent)

end Binary64

end PinLedger
