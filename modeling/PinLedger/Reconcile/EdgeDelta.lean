import PinLedger.Window

/-!
# PinLedger.Reconcile.EdgeDelta

What has to be pinned and unpinned when a pinned range changes.

* `edgeDelta?` — the strips between the edges of the old range and those of the new one
-/

namespace PinLedger

/-- A range that goes up or down by one. -/
structure RangeShift where
  range : TimeRange
  add : Bool
deriving DecidableEq, Repr

/-- Instants of data are a microsecond apart: the next one after or before an edge. -/
def tick : Int := nanosOfMicros 1

/-- The strip at the front edge. -/
def startDelta? (old new : TimeRange) : Option (List RangeShift) :=
  if new.start < old.start then do
    some [⟨.between new.start (← old.start.sub? tick), true⟩]
  else if old.start < new.start then do
    some [⟨.between old.start (← new.start.sub? tick), false⟩]
  else some []

/-- The strip at the back edge. -/
def endDelta? (old new : TimeRange) : Option (List RangeShift) :=
  if old.stop < new.stop then do
    some [⟨.between (← old.stop.add? tick) new.stop, true⟩]
  else if new.stop < old.stop then do
    some [⟨.between (← new.stop.add? tick) old.stop, false⟩]
  else some []

/-- What turns the pinned range `old` into `new`: the edges that moved, or all of both ranges if
they share nothing. `none` if an edge leaves the calendar. -/
def edgeDelta? (old new : TimeRange) : Option (List RangeShift) :=
  if old = new then some []
  else if ¬ old.Overlaps new then some [⟨old, false⟩, ⟨new, true⟩]
  else do
    let front ← startDelta? old new
    let back ← endDelta? old new
    some (front ++ back)

end PinLedger
