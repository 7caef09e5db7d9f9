import PinLedger.Number.Word
import PinLedger.Text.Decimal
import PinLedger.Text.Hex
import PinLedger.Toml.Value

/-!
# PinLedger.Toml.Number

The numbers of a document. Single underscores may stand between digits.

* `Toml.readInteger` — an integer of 64 bits, decimal or with the mark of another base
* `Toml.readReal` — a number with a fraction or an exponent, or a special one
-/

namespace PinLedger.Toml

open Text

/-- The digits at the front of a text, with underscores between them left out. -/
def readDigits (isDigit : Char → Bool) : List Char → List Char × List Char
  | [] => ([], [])
  | c :: s =>
    if isDigit c then
      match s with
      | '_' :: d :: rest =>
        if isDigit d then
          let (ds, rest) := readDigits isDigit (d :: rest)
          (c :: ds, rest)
        else ([c], s)
      | s =>
        let (ds, rest) := readDigits isDigit s
        (c :: ds, rest)
    else ([], c :: s)

/-- A sign, if there is one; whether it is a minus. -/
def readSign : List Char → Bool × List Char
  | '+' :: s => (false, s)
  | '-' :: s => (true, s)
  | s => (false, s)

/-- The decimal digits of an integer part: none, or no zero in front of others. -/
def readWhole (s : List Char) : Option (List Char × List Char) :=
  match s with
  | '0' :: rest => some (['0'], rest)
  | _ =>
    match readDigits isDigit s with
    | ([], _) => none
    | found => some found

/-- An integer that 64 bits can hold. -/
def inRange (n : Int) : Option Int :=
  if FitsSigned 64 n then some n else none

def readBased (base : Nat) (s : List Char) : Option (Int × List Char) :=
  let (ds, rest) := readDigits (fun c => ((hexValue? c).filter (· < base)).isSome) s
  if ds.isEmpty then none
  else do
    let n := ds.foldl (fun n c => base * n + (hexValue? c).getD 0) 0
    some (← inRange n, rest)

def readInteger : List Char → Option (Int × List Char)
  | '0' :: 'x' :: s => readBased 16 s
  | '0' :: 'o' :: s => readBased 8 s
  | '0' :: 'b' :: s => readBased 2 s
  | s => do
    let (negative, s) := readSign s
    let (ds, rest) ← readWhole s
    let n : Int := value ds
    some (← inRange (if negative then -n else n), rest)

def readFraction : List Char → Option (List Char × List Char)
  | '.' :: s =>
    match readDigits isDigit s with
    | ([], _) => none
    | found => some found
  | _ => none

def readExponent : List Char → Option (Int × List Char)
  | c :: s =>
    if c = 'e' ∨ c = 'E' then
      let (negative, s) := readSign s
      match readDigits isDigit s with
      | ([], _) => none
      | (ds, rest) =>
        let n : Int := value ds
        some (if negative then -n else n, rest)
    else none
  | [] => none

/-- The number with these digits and an exponent for the last of them. Beyond the finite numbers
there are only the negative ones. -/
def realOf (negative : Bool) (ds : List Char) (exponent : Int) : Option Real :=
  let n := value ds
  let first : Int := exponent + (decimal n).length
  if n = 0 ∨ first < -400 then some (.finite negative .zero)
  else
    match if 400 < first then none else Binary64.ofDecimal? n exponent with
    | some x => some (.finite negative x)
    | none => if negative then some (.infinite true) else none

/-- A special number whose sign has been read. -/
def readSpecial (negative : Bool) : List Char → Option (Real × List Char)
  | 'i' :: 'n' :: 'f' :: s => some (.infinite negative, s)
  | 'n' :: 'a' :: 'n' :: s => some (.notANumber, s)
  | _ => none

/-- A number with digits, a fraction, an exponent or both. -/
def readDecimal (negative : Bool) (s : List Char) : Option (Real × List Char) := do
  let (whole, rest) ← readWhole s
  let fraction := readFraction rest
  let (digits, rest) := fraction.getD ([], rest)
  let exponent := readExponent rest
  if fraction.isNone ∧ exponent.isNone then none
  else
    let (e, rest) := exponent.getD (0, rest)
    let x ← realOf negative (whole ++ digits) (e - digits.length)
    some (x, rest)

def readReal (s : List Char) : Option (Real × List Char) :=
  let (negative, s) := readSign s
  (readSpecial negative s).or (readDecimal negative s)

end PinLedger.Toml
