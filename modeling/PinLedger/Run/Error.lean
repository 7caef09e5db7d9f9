import PinLedger.Feed.Page
import PinLedger.Layer.Catalog
import PinLedger.StoreError

/-!
# PinLedger.Run.Error

Why a run fails.

* `RunError` — the causes
* `RunError.message` — the failure of the task
-/

namespace PinLedger

inductive RunError where
  | store (e : StoreError)
  | feed (e : FeedError)
  | catalog (e : CatalogError)
  /-- Work in the background broke down, and its session is lost. -/
  | lost
deriving DecidableEq, Repr

def RunError.message : RunError → String
  | .store e => e.message
  | .feed e => e.message
  | .catalog e => e.message
  | .lost => "Worker failure"

end PinLedger
