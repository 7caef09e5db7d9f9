import PinLedger.Reconcile.Case

/-!
# PinLedger.Task.State

What is known of the latest maintenance task.

* `TaskId` — an id that was issued, or any other text a client may send
* `RunSummary` — what a run counted
* `TaskState` — the fields of a task at some moment
-/

namespace PinLedger

/-- The id of a task. Issued ids are distinct from each other and from every text. -/
inductive TaskId where
  | issued (n : Nat)
  | foreign (text : String)
deriving DecidableEq, Repr

inductive TaskKind where
  | reset
  | incremental
deriving DecidableEq, Repr

def TaskKind.name : TaskKind → String
  | .reset => "reset"
  | .incremental => "incremental"

inductive TaskStatus where
  | idle
  | running
  | completed
  | failed
deriving DecidableEq, Repr

def TaskStatus.name : TaskStatus → String
  | .idle => "IDLE"
  | .running => "RUNNING"
  | .completed => "COMPLETED"
  | .failed => "FAILED"

/-- What a run counted. -/
structure RunSummary where
  viewsSeen : Nat := 0
  created : Nat := 0
  updated : Nat := 0
  disabled : Nat := 0
  unchanged : Nat := 0
  ignored : Nat := 0
  pinStatements : Nat := 0
  viewStatements : Nat := 0
  /-- Stored at the end of the run. -/
  watermark : Option Instant := none
deriving DecidableEq, Repr

def RunSummary.record (s : RunSummary) (case : ReconcileCase) : RunSummary :=
  let s := { s with viewsSeen := s.viewsSeen + 1 }
  match case with
  | .created => { s with created := s.created + 1 }
  | .disabled => { s with disabled := s.disabled + 1 }
  | .unchanged => { s with unchanged := s.unchanged + 1 }
  | .ignored => { s with ignored := s.ignored + 1 }
  | .relayer | .extend | .redo => { s with updated := s.updated + 1 }

/-- The fields of a task. -/
structure TaskState where
  taskId : Option TaskId := none
  kind : Option TaskKind := none
  status : TaskStatus := .idle
  startedAt : Option Stamp := none
  finishedAt : Option Stamp := none
  failure : Option String := none
  summary : Option RunSummary := none
deriving DecidableEq, Repr

def TaskState.idle : TaskState := {}

end PinLedger
