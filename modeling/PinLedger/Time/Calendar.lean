/-!
# PinLedger.Time.Calendar

Dates of the Gregorian calendar, extended to all years, and their day numbers.

* `Date.Valid` — the month exists and has that day
* `Date.dayNumber` — days from 1970-01-01
* `Date.ofDayNumber` — the date of a day number
-/

namespace PinLedger

/-- Every fourth year, but of the full centuries only every fourth. -/
def isLeapYear (year : Int) : Bool :=
  year % 4 == 0 && (year % 100 != 0 || year % 400 == 0)

def monthLengths (leap : Bool) : List Nat :=
  [31, if leap then 29 else 28, 31, 30, 31, 30, 31, 31, 30, 31, 30, 31]

structure Date where
  year : Int
  /-- From 1. -/
  month : Nat
  /-- From 1. -/
  day : Nat
deriving DecidableEq, Repr

namespace Date

/-- The month is one of twelve and has this day. -/
def Valid (d : Date) : Prop :=
  1 ≤ d.month ∧ 1 ≤ d.day ∧ d.day ≤ (monthLengths (isLeapYear d.year)).getD (d.month - 1) 0

instance (d : Date) : Decidable d.Valid := inferInstanceAs (Decidable (_ ∧ _ ∧ _))

/-- Days from the start of year 0 to the start of `year`. -/
def daysBeforeYear (year : Int) : Int :=
  365 * year + (year + 3) / 4 - (year + 99) / 100 + (year + 399) / 400

/-- Days from the start of year 0 to 1970-01-01. -/
def epochDay : Int := 719528

def dayNumber (d : Date) : Int :=
  let before : Nat := ((monthLengths (isLeapYear d.year)).take (d.month - 1)).foldl (· + ·) 0
  daysBeforeYear d.year + before + d.day - 1 - epochDay

/-- The year that holds the day `n`, counted from the start of year 0. The average length of a year
gives it up to one. -/
def yearOfDay (n : Int) : Int :=
  let guess := 400 * n / 146097
  if n < daysBeforeYear guess then guess - 1
  else if daysBeforeYear (guess + 1) ≤ n then guess + 1
  else guess

/-- Which of the months of these lengths holds the day `n`, and which of its days it is, both from
zero. -/
def monthOfDay : List Nat → Nat → Nat × Nat
  | [], n => (0, n)
  | len :: rest, n =>
    if n < len then (0, n)
    else ((monthOfDay rest (n - len)).1 + 1, (monthOfDay rest (n - len)).2)

def ofDayNumber (n : Int) : Date :=
  let year := yearOfDay (n + epochDay)
  let md := monthOfDay (monthLengths (isLeapYear year)) (n + epochDay - daysBeforeYear year).toNat
  ⟨year, md.1 + 1, md.2 + 1⟩

end Date

end PinLedger
