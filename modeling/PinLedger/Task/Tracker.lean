import PinLedger.Warning

/-!
# PinLedger.Task.Tracker

The tracker of the maintenance task. There is one task at a time: beginning a task forgets the one
before it, and only the current task can be finished.

* `Tracker.begin` — a new task, with an id not issued before
* `Tracker.complete`, `Tracker.fail` — the end of a task
* `Tracker.status`, `Tracker.task` — asking for a task
-/

namespace PinLedger

structure Tracker where
  state : TaskState := .idle
  /-- How many ids have been issued. -/
  issued : Nat := 0
deriving DecidableEq, Repr

namespace Tracker

def isRunning (t : Tracker) : Bool := t.state.status = .running

/-- Begins a task and gives its id. -/
def begin (t : Tracker) (kind : TaskKind) : TaskId × Tracker :=
  let id := TaskId.issued (t.issued + 1)
  (id, {
    state := {
      taskId := some id, kind := some kind, status := .running, startedAt := some .clock }
    issued := t.issued + 1 })

/-- Ends the task `id`. If it is not the current one, nothing changes but that it is noted. -/
def finish (t : Tracker) (id : TaskId) (status : TaskStatus) (failure : Option String)
    (summary : Option RunSummary) : Tracker × List Warning :=
  if t.state.taskId = some id then
    ({ t with state := { t.state with status, finishedAt := some .clock, failure, summary } }, [])
  else (t, [.staleFinish status id t.state.taskId])

def complete (t : Tracker) (id : TaskId) (summary : RunSummary) : Tracker × List Warning :=
  t.finish id .completed none (some summary)

def fail (t : Tracker) (id : TaskId) (failure : String) : Tracker × List Warning :=
  t.finish id .failed (some failure) none

/-- The status of the current task, whatever the id; another id is noted. -/
def status (t : Tracker) (id : TaskId) : TaskStatus × List Warning :=
  (t.state.status, if t.state.taskId = some id then [] else [.staleStatus id t.state.taskId])

/-- The state of a task, if it is the current one. -/
def task (t : Tracker) (id : TaskId) : Option TaskState :=
  if t.state.taskId = some id then some t.state else none

end Tracker

end PinLedger
