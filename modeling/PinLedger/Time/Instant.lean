import PinLedger.Time.Calendar

/-!
# PinLedger.Time.Instant

Instants of universal time with nanosecond resolution, and lengths of time between them.

* `Instant` — seconds from 1970 and nanoseconds; from 10⁹ on the nanoseconds lie in a leap second
* `Instant.since` — the length of time between two instants
* `Instant.add?` — an instant moved by a length of time, if it stays in the range of years
* `Stamp` — a known instant, or the moment at which the clock was read
-/

namespace PinLedger

/-! ### Lengths of time, in nanoseconds -/

def nanosPerSecond : Nat := 1000000000

def nanosOfSeconds (n : Int) : Int := n * nanosPerSecond

def nanosOfMicros (n : Int) : Int := n * 1000

/-- An instant. The calendar runs from the start of year -262143 to the end of year 262142. A leap
second shares its `second` with the second before it and has `nano` at least 10⁹. -/
structure Instant where
  /-- Whole seconds from 1970-01-01T00:00:00, leap seconds not counted. -/
  second : Int
  nano : Nat
  nano_lt : nano < 2000000000
  first_le : -8334601228800 ≤ second
  le_last : second ≤ 8210266876799
deriving DecidableEq, Repr

namespace Instant

def firstSecond : Int := -8334601228800

def lastSecond : Int := 8210266876799

def secondsPerDay : Int := 86400

/-- The instant with these parts, if there is one. -/
def ofParts? (second : Int) (nano : Nat) : Option Instant :=
  if h : nano < 2000000000 ∧ -8334601228800 ≤ second ∧ second ≤ 8210266876799 then
    some ⟨second, nano, h.1, h.2.1, h.2.2⟩
  else none

/-- Inside a leap second. -/
def isLeap (t : Instant) : Bool := nanosPerSecond ≤ t.nano

/-- Earlier second, or the same second and no later in it. -/
instance : LE Instant :=
  ⟨fun a b => a.second < b.second ∨ (a.second = b.second ∧ a.nano ≤ b.nano)⟩

instance : LT Instant :=
  ⟨fun a b => a.second < b.second ∨ (a.second = b.second ∧ a.nano < b.nano)⟩

instance (a b : Instant) : Decidable (a ≤ b) := inferInstanceAs (Decidable (_ ∨ _))

instance (a b : Instant) : Decidable (a < b) := inferInstanceAs (Decidable (_ ∨ _))

theorem le_def {a b : Instant} :
    a ≤ b ↔ a.second < b.second ∨ (a.second = b.second ∧ a.nano ≤ b.nano) := Iff.rfl

theorem lt_def {a b : Instant} :
    a < b ↔ a.second < b.second ∨ (a.second = b.second ∧ a.nano < b.nano) := Iff.rfl

@[ext] theorem ext {a b : Instant} (hs : a.second = b.second) (hn : a.nano = b.nano) : a = b := by
  cases a; cases b; simp_all

protected theorem le_refl (a : Instant) : a ≤ a := Or.inr ⟨rfl, Nat.le_refl _⟩

protected theorem le_trans {a b c : Instant} (h₁ : a ≤ b) (h₂ : b ≤ c) : a ≤ c := by
  rw [le_def] at *; omega

protected theorem le_total (a b : Instant) : a ≤ b ∨ b ≤ a := by
  rw [le_def, le_def]; omega

protected theorem le_antisymm {a b : Instant} (h₁ : a ≤ b) (h₂ : b ≤ a) : a = b := by
  rw [le_def] at *; ext <;> omega

protected theorem not_le {a b : Instant} : ¬ a ≤ b ↔ b < a := by
  rw [le_def, lt_def]; omega

/-- The later of two instants. -/
def latest (a b : Instant) : Instant := if a ≤ b then b else a

def secondOfDay (t : Instant) : Int := t.second % secondsPerDay

/-- The leap seconds between two instants count by the time of day alone: one more if the earlier
time of day is inside one. -/
def leapAdjustment (a b : Instant) : Int :=
  if b.secondOfDay < a.secondOfDay then (if b.isLeap then 1 else 0)
  else if a.secondOfDay < b.secondOfDay then (if a.isLeap then -1 else 0)
  else 0

/-- The length of time from `b` to `a`, negative if `a` is earlier. -/
def since (a b : Instant) : Int :=
  (a.second - b.second + leapAdjustment a b) * nanosPerSecond + ((a.nano : Int) - b.nano)

def distance (a b : Instant) : Nat := (a.since b).natAbs

/-- The instant `second` and `nano` after 1970, `nano` being less than a second off its range. -/
def normalized? (second nano : Int) : Option Instant :=
  let n : Int := nanosPerSecond
  if nano < 0 then ofParts? (second - 1) (nano + n).toNat
  else if n ≤ nano then ofParts? (second + 1) (nano - n).toNat
  else ofParts? second nano.toNat

/-- The instant `d` after `t`. A leap second is left by moving a whole second or past either of its
ends; it is left backwards to the start of the second after it, forwards from the second before.
`none` outside of the calendar. -/
def add? (t : Instant) (d : Int) : Option Instant :=
  let n : Int := nanosPerSecond
  let s := d.tdiv n
  let f := d.tmod n
  if t.isLeap then
    if 0 < s ∨ (0 < f ∧ 2 * n - f ≤ t.nano) then normalized? (t.second + s) (t.nano - n + f)
    else if s < 0 then normalized? (t.second + 1 + s) (t.nano - n + f)
    else ofParts? t.second (t.nano + f).toNat
  else normalized? (t.second + s) (t.nano + f)

def sub? (t : Instant) (d : Int) : Option Instant := t.add? (-d)

end Instant

/-- When a record changed or a task went on: at an instant that was told, or when the clock was
read, whose value is not kept. -/
inductive Stamp where
  | told (t : Instant)
  | clock
deriving DecidableEq, Repr

/-- The told instant, else the moment of asking. -/
def Stamp.ofTold (t : Option Instant) : Stamp := t.elim .clock .told

end PinLedger
