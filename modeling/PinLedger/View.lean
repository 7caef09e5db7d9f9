import PinLedger.NameSet
import PinLedger.Window

/-!
# PinLedger.View

Views, as they come from the feed and as they are kept while they are pinned.

* `ParsedView` — a view of the feed
* `ViewRecord` — a view that has been pinned, with its first and its current time
-/

namespace PinLedger

/-- How the time of a view was chosen. -/
inductive TimeMode where
  | absolute
  /-- Relative to the moment at which the view was saved. -/
  | relative
  | unknown
deriving DecidableEq, Repr

/-- A view that has been pinned. All its layers are pinned over the hull of its two times. -/
structure ViewRecord where
  id : Int
  /-- Of the first pin. -/
  timeOriginal : Instant
  /-- The current one. -/
  timeMain : Instant
  layers : NameSet
  lastUpdate : Stamp
  drivingLayer : Option String
deriving DecidableEq, Repr

def ViewRecord.span (r : ViewRecord) : Instant × Instant := orderedPair r.timeOriginal r.timeMain

/-- A view of the feed with its preference decoded. -/
structure ParsedView where
  id : Int
  /-- In the order of their first mention. -/
  layers : List String
  time : Instant
  timeMode : TimeMode
  disabled : Bool
  drivingLayer : Option String
  lastUpdate : Option Instant
deriving DecidableEq, Repr

namespace ParsedView

def layerSet (v : ParsedView) : NameSet := .ofList v.layers

/-- The record of a view that is pinned for the first time. -/
def freshRecord (v : ParsedView) : ViewRecord where
  id := v.id
  timeOriginal := v.time
  timeMain := v.time
  layers := v.layerSet
  lastUpdate := .ofTold v.lastUpdate
  drivingLayer := v.drivingLayer

end ParsedView

end PinLedger
