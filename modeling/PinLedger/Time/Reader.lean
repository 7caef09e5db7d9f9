import PinLedger.Number.Word
import PinLedger.Text.Blank
import PinLedger.Text.Decimal
import PinLedger.Time.Instant

/-!
# PinLedger.Time.Reader

Reading an instant from text. The accepted forms are wider than the written one: blanks before each
number and around the signs between the date's parts, numbers of one digit, a space in place of `T`,
any offset from universal time.

* `InstantFault` — why a text is no instant
* `Instant.read` — the instant of a text
-/

namespace PinLedger

open Text

/-- Why a text is not an instant. -/
inductive InstantFault where
  | tooShort
  | invalid
  | outOfRange
  | tooLong
  | impossible
deriving DecidableEq, Repr

def InstantFault.message : InstantFault → String
  | .tooShort => "premature end of input"
  | .invalid => "input contains invalid characters"
  | .outOfRange => "input is out of range"
  | .tooLong => "trailing input"
  | .impossible => "no possible date and time matching input"

namespace Instant

/-- A reader takes what it reads from the front of a text and gives the rest. -/
abbrev Reader (α : Type) := List Char → Except InstantFault (α × List Char)

/-- The number that the text starts with: at most `width` digits, at least one. -/
def readNumber (width : Nat) : Reader Nat := fun s =>
  let ds := (s.take width).takeWhile isDigit
  match s, ds with
  | [], _ => .error .tooShort
  | _, [] => .error .invalid
  | _, ds =>
    if value ds < signLimit 64 then .ok (value ds, s.drop ds.length) else .error .outOfRange

def readField (lo hi : Nat) : Reader Nat := fun s => do
  let (n, rest) ← readNumber 2 (trimStart s)
  if lo ≤ n ∧ n ≤ hi then .ok (n, rest) else .error .outOfRange

/-- A year has at most four digits, or a sign and any number of digits. -/
def readYear : Reader Int := fun s => do
  let s := trimStart s
  let (n, rest) ← match s with
    | '-' :: r => do
      let (n, rest) ← readNumber r.length r
      .ok (-(n : Int), rest)
    | '+' :: r => do
      let (n, rest) ← readNumber r.length r
      .ok ((n : Int), rest)
    | _ => do
      let (n, rest) ← readNumber 4 s
      .ok ((n : Int), rest)
  if FitsSigned 32 n then .ok (n, rest) else .error .outOfRange

def readMark (c : Char) : Reader Unit
  | [] => .error .tooShort
  | d :: rest => if d = c then .ok ((), rest) else .error .invalid

/-- The letter `T` of either case, or a space. -/
def readDateEnd : Reader Unit
  | [] => .error .tooShort
  | c :: rest => if c = 't' ∨ c = 'T' ∨ c = ' ' then .ok ((), rest) else .error .invalid

/-- The digits after a point as nanoseconds. Digits after the ninth are dropped. -/
def readFraction : Reader Nat
  | '.' :: s => do
    let (n, rest) ← readNumber 9 s
    .ok (n * Nat.pow 10 (9 - (s.length - rest.length)), rest.dropWhile isDigit)
  | s => .ok (0, s)

/-- Two digits, as many as an hour or a minute of an offset has. What is too short for two digits is
shorter than two bytes. -/
def readTwoDigits : Reader (Nat × Nat)
  | a :: b :: rest =>
    match digitValue? a, digitValue? b with
    | some x, some y => .ok ((x, y), rest)
    | _, _ => .error .invalid
  | [a] => .error (if a.utf8Size = 1 then .tooShort else .invalid)
  | [] => .error .tooShort

/-- Seconds east of universal time: `Z`, `UTC`, or a sign, hours and minutes. -/
def readOffset : Reader Int := fun s =>
  if (s.take 3).map Char.toLower = ['u', 't', 'c'] then .ok (0, s.drop 3)
  else match s with
    | [] => .error .tooShort
    | c :: rest =>
      if c = 'Z' ∨ c = 'z' then .ok (0, rest)
      else if c = '+' ∨ c = '-' ∨ c = '\u2212' then do
        let ((h₁, h₀), rest) ← readTwoDigits rest
        let ((m₁, m₀), rest) ← readTwoDigits
          (rest.dropWhile fun c => c = ':' || isBlank c)
        if 5 < m₁ then .error .outOfRange
        else
          let seconds : Int := ((10 * h₁ + h₀) * 60 + 10 * m₁ + m₀) * 60
          .ok (if c = '+' then seconds else -seconds, rest)
      else .error .invalid

/-- The numbers of a text, before anything is said about the day they name. -/
structure Reading where
  date : Date
  hour : Nat
  minute : Nat
  /-- Up to 60. -/
  second : Nat
  nano : Nat
  /-- Seconds east of universal time. -/
  offset : Int

def readParts (s : List Char) : Except InstantFault Reading := do
  let (year, s) ← readYear s
  let ((), s) ← readMark '-' (trimStart s)
  let (month, s) ← readField 1 12 s
  let ((), s) ← readMark '-' (trimStart s)
  let (day, s) ← readField 1 31 s
  let ((), s) ← readDateEnd s
  let (hour, s) ← readField 0 23 s
  let ((), s) ← readMark ':' (trimStart s)
  let (minute, s) ← readField 0 59 s
  let ((), s) ← readMark ':' (trimStart s)
  let (second, s) ← readField 0 60 s
  let (nano, s) ← readFraction s
  let (offset, s) ← readOffset (trimStart s)
  if trimStart s = [] then .ok ⟨⟨year, month, day⟩, hour, minute, second, nano, offset⟩
  else .error .tooLong

def yearRange : Int × Int := (-262143, 262142)

/-- The instant that the parts name. Second 60 is the leap second after second 59. -/
def ofReading (r : Reading) : Except InstantFault Instant :=
  if ¬ r.date.Valid ∨ r.date.year < yearRange.1 ∨ yearRange.2 < r.date.year then
    .error .outOfRange
  else if secondsPerDay ≤ r.offset.natAbs then .error .outOfRange
  else
    let leap := r.second / 60
    let local_ := r.date.dayNumber * secondsPerDay +
      ((r.hour * 60 + r.minute) * 60 + (r.second - leap) : Nat)
    match ofParts? (local_ - r.offset) (leap * nanosPerSecond + r.nano) with
    | some t => .ok t
    | none => .error .impossible

def read (s : List Char) : Except InstantFault Instant := do
  ofReading (← readParts s)

def ofText? (s : String) : Option Instant := (read s.toList).toOption

end Instant

end PinLedger
