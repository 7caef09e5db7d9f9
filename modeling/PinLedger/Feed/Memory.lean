import PinLedger.Feed.Page

/-!
# PinLedger.Feed.Memory

A feed that holds its views in memory.

* `MemoryFeed.upsert`, `MemoryFeed.remove` — changing the views
* `MemoryFeed.fail`, `MemoryFeed.recover` — a feed that does not answer
* `MemoryFeed.fetch` — the views that changed since an instant
-/

namespace PinLedger

structure MemoryFeed where
  /-- One view for an id, in the order in which the ids came. -/
  views : List RawView := []
  /-- What the feed says instead of an answer. -/
  failure : Option String := none

namespace MemoryFeed

/-- Puts a view in the place of the one with its id, or at the end. -/
def put (v : RawView) : List RawView → List RawView
  | [] => [v]
  | w :: rest => if w.id = v.id then v :: rest else w :: put v rest

def upsert (f : MemoryFeed) (v : RawView) : MemoryFeed := { f with views := put v f.views }

def remove (f : MemoryFeed) (id : Int) : MemoryFeed :=
  { f with views := f.views.filter (·.id ≠ id) }

def clear (f : MemoryFeed) : MemoryFeed := { f with views := [] }

def fail (f : MemoryFeed) (text : String) : MemoryFeed := { f with failure := some text }

def recover (f : MemoryFeed) : MemoryFeed := { f with failure := none }

/-- A view has changed since an instant unless it was updated no later. A view that does not tell
when it was updated may have changed. -/
def changedSince (since : Option Instant) (v : RawView) : Bool :=
  match since, v.lastUpdate with
  | some s, some t => ¬ t ≤ s
  | _, _ => true

/-- The views that have changed since an instant, or all. -/
def fetch (f : MemoryFeed) (since : Option Instant) : Except FeedError (List RawView) :=
  match f.failure with
  | some text => .error (.unavailable text)
  | none => .ok (f.views.filter (changedSince since))

end MemoryFeed

end PinLedger
