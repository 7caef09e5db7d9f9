import PinLedger.Text.Decimal
import PinLedger.Time.Instant

/-!
# PinLedger.Time.Text

The text of an instant: date, `T`, time and `Z`, with no fraction or the fewest of 3, 6 and 9
fraction digits that lose nothing.

* `Instant.render` — the text of an instant
* `Stamp.render` — the same, with a mark for a moment that was read from the clock
-/

namespace PinLedger

open Text

/-- Years 0 to 9999 have four digits, the others a sign and at least four. -/
def renderYear (year : Int) : List Char :=
  if 0 ≤ year ∧ year ≤ 9999 then padded 4 year.toNat
  else (if year < 0 then '-' else '+') ::
    (if year.natAbs < 10000 then padded 4 year.natAbs else decimal year.natAbs)

def renderFraction (nano : Nat) : List Char :=
  if nano = 0 then []
  else if nano % 1000000 = 0 then '.' :: padded 3 (nano / 1000000)
  else if nano % 1000 = 0 then '.' :: padded 6 (nano / 1000)
  else '.' :: padded 9 nano

def Date.render (d : Date) : List Char :=
  renderYear d.year ++ '-' :: padded 2 d.month ++ '-' :: padded 2 d.day

/-- The characters of an instant. A leap second is written as second 60. -/
def Instant.chars (t : Instant) : List Char :=
  let date := Date.ofDayNumber (t.second / secondsPerDay)
  let sod := t.secondOfDay.toNat
  date.render ++ 'T' :: padded 2 (sod / 3600) ++ ':' :: padded 2 (sod / 60 % 60) ++
    ':' :: padded 2 (sod % 60 + t.nano / nanosPerSecond) ++
    renderFraction (t.nano % nanosPerSecond) ++ ['Z']

def Instant.render (t : Instant) : String := String.ofList t.chars

/-- A moment that the clock gave is written as the mark `<now>`. -/
def Stamp.render : Stamp → String
  | .told t => t.render
  | .clock => "<now>"

end PinLedger
