import PinLedger.Store.Work
import PinLedger.Task.State

/-!
# PinLedger.Run.Work

The work of a run, done in one transaction.

* `Work.update` — the views that changed, planned one after another
* `Work.rebuild` — the same after all pins and records have been dropped
-/

namespace PinLedger

namespace Work

def reconcileNext (reg : Registry) (w : Window) (s : RunSummary) (v : ParsedView) :
    Work RunSummary := do
  let (p, _) ← reconcile reg w v
  pure (s.record p.case)

def reconcileAll (reg : Registry) (w : Window) (views : List ParsedView) : Work RunSummary :=
  views.foldlM (reconcileNext reg w) {}

/-- Carries out what still waits and stores the watermark, if there is one. -/
def finish (watermark : Option Instant) (s : RunSummary) : Work RunSummary := do
  let _ ← flushPins
  let _ ← flushViews
  watermark.forM storeLastRun
  let space ← get
  releasePins
  releaseViews
  pure { s with
    pinStatements := space.pins.executed
    viewStatements := space.views.executed
    watermark }

def update (reg : Registry) (w : Window) (views : List ParsedView) (watermark : Option Instant) :
    Work RunSummary := do
  finish watermark (← reconcileAll reg w views)

/-- Drops the pins of the tables of the registry, and all records. -/
def wipe (reg : Registry) : Work Unit := do
  reg.tables.forM fun table => do
    let _ ← enqueuePin (.reset table)
  let _ ← flushPins
  truncate

def rebuild (reg : Registry) (w : Window) (views : List ParsedView) (watermark : Option Instant) :
    Work RunSummary := do
  wipe reg
  update reg w views watermark

end Work

end PinLedger
