import PinLedger.Layer.Registry
import PinLedger.Statement

/-!
# PinLedger.Reconcile.Case

How the change of a view is classified, and what is persisted for it.

* `ReconcileCase` — the seven cases
* `classify` — the case of a view and its former record
* `nextRecord`, `nextStatement` — the record that a case leaves behind, and the change that does it
* `PlanStep`, `agenda` — what a case does to the layers, before any table has been asked
-/

namespace PinLedger

inductive ReconcileCase where
  /-- Disabled and never pinned. -/
  | ignored
  /-- Pinned for the first time. -/
  | created
  /-- Disabled after it had been pinned. -/
  | disabled
  /-- The same time and layers. -/
  | unchanged
  /-- The same time, other layers. -/
  | relayer
  /-- Moved within the window of its first time. -/
  | extend
  /-- Moved out of the window of its first time. -/
  | redo
deriving DecidableEq, Repr

def ReconcileCase.name : ReconcileCase → String
  | .ignored => "ignored"
  | .created => "created"
  | .disabled => "disabled"
  | .unchanged => "unchanged"
  | .relayer => "relayer"
  | .extend => "extend"
  | .redo => "redo"

/-- The case of a view that has been pinned and is not disabled. -/
def classifyUpdate (w : Window) (r : ViewRecord) (v : ParsedView) : ReconcileCase :=
  if r.timeMain = v.time then
    if (r.layers.diff v.layerSet).isEmpty ∧ (v.layerSet.diff r.layers).isEmpty then .unchanged
    else .relayer
  else if w.overlaps r.timeOriginal v.time then .extend
  else .redo

/-- The case of a view, given its record if it has been pinned. -/
def classify (w : Window) (previous : Option ViewRecord) (v : ParsedView) : ReconcileCase :=
  match previous, v.disabled with
  | none, true => .ignored
  | some _, true => .disabled
  | none, false => .created
  | some r, false => classifyUpdate w r v

/-- The record after an update. Only a move out of the window changes the first time. -/
def updatedRecord (r : ViewRecord) (v : ParsedView) (case : ReconcileCase) : ViewRecord where
  id := r.id
  timeOriginal := if case = .redo then v.time else r.timeOriginal
  timeMain := v.time
  layers := v.layerSet
  lastUpdate := .ofTold v.lastUpdate
  drivingLayer := v.drivingLayer

/-- The change of the records that goes with a case. -/
def nextStatement (w : Window) (previous : Option ViewRecord) (v : ParsedView) :
    Option ViewStatement :=
  match previous, v.disabled with
  | none, true => none
  | some r, true => some (.delete r.id)
  | none, false => some (.insert v.freshRecord)
  | some r, false => some (.update (updatedRecord r v (classifyUpdate w r v)))

/-- One thing to be done for a view. -/
inductive PlanStep where
  /-- The hull of the two times goes up or down. -/
  | cover (layer : MappedLayer) (a b : Instant) (add : Bool)
  /-- The hull of `a` and `b` becomes the hull of `a` and `b'`. -/
  | move (layer : MappedLayer) (a b b' : Instant)
  /-- The layer stands for no table. -/
  | unmapped (view : Int) (layer : String)
deriving DecidableEq, Repr

/-- A step for every binding of a layer id. -/
def stepsFor (reg : Registry) (view : Int) (step : MappedLayer → PlanStep) (layer : String) :
    List PlanStep :=
  match reg.layersFor layer with
  | [] => [.unmapped view layer]
  | ls => ls.map step

/-- The steps that take the hull of a record up or down for some of the layer ids. -/
def coverSteps (reg : Registry) (r : ViewRecord) (layers : NameSet) (add : Bool) : List PlanStep :=
  layers.toList.flatMap
    (stepsFor reg r.id fun l => .cover l r.timeOriginal r.timeMain add)

/-- The steps that move the hull of `r` to that of `next`, which has the same first time. -/
def moveSteps (reg : Registry) (r next : ViewRecord) (layers : NameSet) : List PlanStep :=
  layers.toList.flatMap
    (stepsFor reg r.id fun l => .move l r.timeOriginal r.timeMain next.timeMain)

/-- The steps of an update: layers that are gone, layers that stay, layers that are new. -/
def updateSteps (reg : Registry) (r next : ViewRecord) (case : ReconcileCase) : List PlanStep :=
  let kept := r.layers.inter next.layers
  coverSteps reg r (r.layers.diff next.layers) false ++
    (match case with
      | .extend => moveSteps reg r next kept
      | .redo => coverSteps reg r kept false ++ coverSteps reg next kept true
      | _ => []) ++
    coverSteps reg next (next.layers.diff r.layers) true

/-- All steps for a view, in their order. -/
def agenda (reg : Registry) (w : Window) (previous : Option ViewRecord) (v : ParsedView) :
    List PlanStep :=
  match previous, v.disabled with
  | none, true => []
  | some r, true => coverSteps reg r r.layers false
  | none, false => coverSteps reg v.freshRecord v.freshRecord.layers true
  | some r, false =>
    let case := classifyUpdate w r v
    updateSteps reg r (updatedRecord r v case) case

end PinLedger
