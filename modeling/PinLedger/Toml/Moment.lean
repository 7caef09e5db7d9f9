import PinLedger.Text.Decimal

/-!
# PinLedger.Toml.Moment

The dates and times of a document. Only their form matters: which days there are, and which times.

* `Toml.readMoment` — a date, a time, or a date with a time and perhaps an offset
-/

namespace PinLedger.Toml

open Text

/-- A number of exactly so many digits in a range. -/
def readField (width lo hi : Nat) (s : List Char) : Option (Nat × List Char) :=
  let ds := s.take width
  let n := value ds
  if ds.length = width ∧ ds.all isDigit ∧ lo ≤ n ∧ n ≤ hi then some (n, s.drop width) else none

def readChar (p : Char → Bool) : List Char → Option (List Char)
  | c :: s => if p c then some s else none
  | [] => none

def isLeap (year : Nat) : Bool := year % 4 = 0 && (year % 100 ≠ 0 || year % 400 = 0)

def daysIn (year month : Nat) : Nat :=
  if month = 2 then (if isLeap year then 29 else 28)
  else if month = 4 ∨ month = 6 ∨ month = 9 ∨ month = 11 then 30
  else 31

def skipDate (s : List Char) : Option (List Char) := do
  let (year, s) ← readField 4 0 9999 s
  let s ← readChar (· = '-') s
  let (month, s) ← readField 2 1 12 s
  let s ← readChar (· = '-') s
  let (_, s) ← readField 2 1 (daysIn year month) s
  some s

/-- The text after the fraction of a second, if there is one. -/
def skipFraction (s : List Char) : List Char :=
  match s with
  | '.' :: d :: rest => if isDigit d then rest.dropWhile isDigit else s
  | _ => s

/-- The text after a time; a minute may have a leap second. -/
def skipTime (s : List Char) : Option (List Char) := do
  let (_, s) ← readField 2 0 23 s
  let s ← readChar (· = ':') s
  let (_, s) ← readField 2 0 59 s
  let s ← readChar (· = ':') s
  let (_, s) ← readField 2 0 60 s
  some (skipFraction s)

def skipOffset (s : List Char) : Option (List Char) :=
  (readChar (fun c => c = 'Z' || c = 'z') s).or do
    let s ← readChar (fun c => c = '+' || c = '-') s
    let (_, s) ← readField 2 0 23 s
    let s ← readChar (· = ':') s
    let (_, s) ← readField 2 0 59 s
    some s

/-- The text after a time that belongs to a date, and after its offset. -/
def skipTimeOfDate (s : List Char) : Option (List Char) := do
  let s ← readChar (fun c => c = 'T' || c = 't' || c = ' ') s
  let s ← skipTime s
  some ((skipOffset s).getD s)

def skipMoment (s : List Char) : Option (List Char) :=
  ((skipDate s).map fun s => (skipTimeOfDate s).getD s).or (skipTime s)

def readMoment (s : List Char) : Option (String × List Char) := do
  let rest ← skipMoment s
  some (String.ofList (s.take (s.length - rest.length)), rest)

end PinLedger.Toml
