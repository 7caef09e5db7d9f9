import PinLedger.Sql.Statement
import PinLedger.Store.Data
import PinLedger.Store.Queue
import PinLedger.Warning

/-!
# PinLedger.Store.Work

Work inside a transaction: a copy of the data, changed by statements that wait in two queues until a
batch is full or they are flushed. When work fails, what it had done stays visible to the work that
goes on after the failure.

* `Work` — a step of the work
* `Work.executePins`, `Work.executeViews` — a batch carried out
* `Work.enqueuePin`, `Work.flushPins`, `Work.releasePins` — the pin batcher
* `Work.enqueueView`, `Work.flushViews`, `Work.fetchView`, `Work.truncate` — the view store
* `Work.reconcile` — planning a view and queueing its plan
-/

namespace PinLedger

/-- Failures that the store was told to have. -/
structure Faults where
  /-- So many more pin batches succeed before one fails. -/
  batchesLeft : Option Nat := none
  /-- No session can be opened. -/
  unreachable : Bool := false
deriving DecidableEq, Repr

/-- What the work of a transaction reads and changes. -/
structure Workspace where
  data : StoreData
  faults : Faults
  pins : Queue PinStatement
  views : Queue ViewStatement
  warnings : List Warning := []

/-- The workspace at the start of a transaction. -/
def Workspace.start (data : StoreData) (faults : Faults) (pinBatch viewBatch : Nat) :
    Workspace where
  data
  faults
  pins := .ofSize "pin batcher" pinBatch
  views := .ofSize "view store" viewBatch

/-- A step of the work. It leaves a workspace behind also when it fails. -/
abbrev Work := ExceptT Abort (StateM Workspace)

namespace Work

def fail {α : Type} (e : StoreError) : Work α := throw (.error e)

/-- Fails if the store was told to fail at this batch. -/
def checkFault : Work Unit := do
  let s ← get
  match s.faults.batchesLeft with
  | none => pure ()
  | some 0 =>
    set { s with faults := { s.faults with batchesLeft := none } }
    fail .batchFault
  | some (n + 1) => set { s with faults := { s.faults with batchesLeft := some n } }

def executePin (statement : PinStatement) : Work Unit := do
  let s ← get
  match s.data.applyPin statement with
  | .error a => throw a
  | .ok data => set { s with data }

/-- Carries out pin statements up to the first that fails. -/
def executePins (batch : List PinStatement) : Work Nat := do
  checkFault
  batch.forM executePin
  pure batch.length

/-- Carries out one view statement and gives the number of records that it touched. -/
def executeView (statement : ViewStatement) : Work Nat := do
  let s ← get
  set { s with data := s.data.applyView statement }
  pure (s.data.views.touched statement)

/-- Carries out view statements and gives the number of records that they touched. -/
def executeViews (batch : List ViewStatement) : Work Nat := do
  let counts ← batch.mapM executeView
  pure (counts.foldl (· + ·) 0)

/-- The record of a view, as far as statements have been carried out. -/
def storedView (id : Int) : Work (Option ViewRecord) := do
  pure ((← get).data.views.find? id)

def nearest (c : Column) (target : Instant) : Work (Option Instant) := do
  match (← get).data.lookup c target with
  | .error e => fail e
  | .ok t => pure t

def storeLastRun (t : Instant) : Work Unit :=
  modify fun s => { s with data := { s.data with lastRun := some t } }

/-! ### The pin batcher -/

/-- Carries out the waiting pin statements as one batch. They are not kept if the batch fails. -/
def flushPins : Work Nat := do
  let (batch, pins) := (← get).pins.take
  modify fun s => { s with pins }
  if batch.isEmpty then pure 0
  else
    let n ← executePins batch
    modify fun s => { s with pins := s.pins.recordExecuted n }
    pure n

/-- Queues a pin statement and flushes a full batch. -/
def enqueuePin (statement : PinStatement) : Work String := do
  match (← get).pins.push statement with
  | .error e => fail e
  | .ok (pins, full) =>
    modify fun s => { s with pins }
    if full then let _ ← flushPins
    pure statement.sql

/-- The warning for statements that a release discarded. -/
def discardWarning (writer : String) : Nat → List Warning
  | 0 => []
  | n + 1 => [.discarded writer (n + 1)]

def releasePins : Work Unit :=
  modify fun s =>
    let (n, pins) := s.pins.release
    { s with pins, warnings := s.warnings ++ discardWarning s.pins.name n }

/-! ### The view store -/

/-- Carries out the waiting view statements and gives the number of records that they touched. -/
def flushViews : Work Nat := do
  let (batch, views) := (← get).views.take
  modify fun s => { s with views }
  if batch.isEmpty then pure 0
  else
    let n ← executeViews batch
    modify fun s => { s with views := s.views.recordExecuted batch.length }
    pure n

/-- Queues a view statement and flushes a full batch. -/
def enqueueView (statement : ViewStatement) : Work String := do
  match (← get).views.push statement with
  | .error e => fail e
  | .ok (views, full) =>
    modify fun s => { s with views }
    if full then let _ ← flushViews
    pure statement.sql

/-- The record of a view with all statements before carried out. -/
def fetchView (id : Int) : Work (Option ViewRecord) := do
  let _ ← flushViews
  storedView id

/-- Drops all records, those that wait as well. -/
def truncate : Work Unit := do
  let _ ← flushViews
  modify fun s => { s with data := { s.data with views := .empty } }

def releaseViews : Work Unit :=
  modify fun s =>
    let (n, views) := s.views.release
    { s with views, warnings := s.warnings ++ discardWarning s.views.name n }

/-! ### Plans -/

/-- Queues the statements of a plan and gives their texts. -/
def applyPlan (p : Plan) : Work (List String) := do
  let pins ← p.operations.mapM fun op => enqueuePin op.statement
  let views ← p.statement.toList.mapM enqueueView
  pure (pins ++ views)

/-- The plan of a view for its stored record and the rows of the tables. -/
def planView (reg : Registry) (w : Window) (v : ParsedView) : Work Plan := do
  let previous ← fetchView v.id
  match plan (← get).data.lookup reg w previous v with
  | .error e => throw e.toAbort
  | .ok p => pure p

def reconcile (reg : Registry) (w : Window) (v : ParsedView) : Work (Plan × List String) := do
  let p ← planView reg w v
  let texts ← applyPlan p
  pure (p, texts)

end Work

end PinLedger
