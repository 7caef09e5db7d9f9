import PinLedger.Time.Instant

/-!
# PinLedger.Window

The pinning window. A view at time `t` covers the instants from `t - D` to `t + D`, where `D` is the
half-width of the window.

* `TimeRange` — a closed range of instants
* `Window.around`, `Window.hull` — what one time covers, and the range over what two times cover
* `Window.overlaps` — whether what two times cover meets
-/

namespace PinLedger

/-- Two times in order. Only whole seconds are compared: within one second they keep their order. -/
def orderedPair (a b : Instant) : Instant × Instant :=
  if a.second ≤ b.second then (a, b) else (b, a)

/-- The instants from `start` to `stop`, both included. -/
structure TimeRange where
  start : Instant
  stop : Instant
  start_le_stop : start ≤ stop
deriving DecidableEq, Repr

namespace TimeRange

/-- The range with these bounds, given in either order. -/
def between (a b : Instant) : TimeRange :=
  if h : a ≤ b then ⟨a, b, h⟩ else ⟨b, a, (Instant.le_total a b).resolve_left h⟩

/-- An instant lies in a range. -/
instance : Membership Instant TimeRange := ⟨fun r t => r.start ≤ t ∧ t ≤ r.stop⟩

theorem mem_def {t : Instant} {r : TimeRange} : t ∈ r ↔ r.start ≤ t ∧ t ≤ r.stop := Iff.rfl

instance (t : Instant) (r : TimeRange) : Decidable (t ∈ r) :=
  inferInstanceAs (Decidable (_ ∧ _))

/-- Two ranges share an instant. -/
def Overlaps (r s : TimeRange) : Prop := r.start ≤ s.stop ∧ s.start ≤ r.stop

instance (r s : TimeRange) : Decidable (r.Overlaps s) := inferInstanceAs (Decidable (_ ∧ _))

theorem between_of_le {a b : Instant} (h : a ≤ b) : between a b = ⟨a, b, h⟩ := dif_pos h

end TimeRange

/-- A window is given by half of its width. -/
structure Window where
  /-- In nanoseconds. -/
  halfWidth : Nat
deriving DecidableEq, Repr

namespace Window

def ofMinutes (minutes : Nat) : Window := ⟨(nanosOfSeconds (minutes * 30)).natAbs⟩

/-- The window with this half-width, whose sign does not matter. -/
def ofHalfWidth (d : Int) : Window := ⟨d.natAbs⟩

/-- What the time `t` covers; `none` if it reaches out of the calendar. -/
def around? (w : Window) (t : Instant) : Option TimeRange := do
  let start ← t.sub? w.halfWidth
  let stop ← t.add? w.halfWidth
  some (.between start stop)

/-- The range over what the times `a` and `b` cover. -/
def hull? (w : Window) (a b : Instant) : Option TimeRange := do
  let (lo, hi) := orderedPair a b
  let start ← lo.sub? w.halfWidth
  let stop ← hi.add? w.halfWidth
  some (.between start stop)

/-- The times are at most a whole width apart. -/
def overlaps (w : Window) (anchor candidate : Instant) : Bool :=
  candidate.distance anchor ≤ 2 * w.halfWidth

end Window

end PinLedger
