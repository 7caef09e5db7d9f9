import PinLedger.Layer.Mapping
import PinLedger.StoreError
import PinLedger.Task.State
import PinLedger.Text.Quoted

/-!
# PinLedger.Warning

What is worth a line in the log although the work goes on.

* `Warning` — the occasions
* `Warning.message` — the line
-/

namespace PinLedger

inductive Warning where
  /-- A line of the mapping, counted from 1, is no entry. -/
  | malformedMapping (line : Nat) (raw : String)
  /-- The catalog does not know the layer of an entry. -/
  | notInCatalog (e : MappingEntry)
  /-- A writer was released with statements waiting. -/
  | discarded (writer : String) (count : Nat)
  /-- The lock of a run was not its own any more when it ended. -/
  | lockNotHeld (key : Int)
  /-- The lock of a run could not be given back. -/
  | unlockFailed (key : Int) (e : StoreError)
  /-- Giving back the lock broke down with this text. -/
  | unlockLost (text : String)
  /-- A task that is not the current one came to its end. -/
  | staleFinish (status : TaskStatus) (task : TaskId) (current : Option TaskId)
  /-- Somebody asked for a task that is not the current one. -/
  | staleStatus (task : TaskId) (current : Option TaskId)
  /-- There is no configuration file. -/
  | noConfig
deriving DecidableEq, Repr

/-- The report of work in the background that broke down with a text. Tasks in the background have
no names that could be told. -/
def lostTaskMessage (text : String) : String :=
  "task <n> panicked with message " ++ quoted text

/-- The log line of a warning, given the text of each task id. -/
def Warning.message (name : TaskId → String) : Warning → String
  | .malformedMapping line raw => s!"Skipping malformed layer mapping line {line}: {quoted raw}"
  | .notInCatalog e => s!"No catalog entry for {e.workspace}:{e.name} (layer {e.layer}), skipping"
  | .discarded writer count => s!"{writer} released with {count} unflushed statements, discarding"
  | .lockNotHeld key => s!"Advisory lock {key} was not held at release"
  | .unlockFailed key e => s!"Failed to release advisory lock {key}: {e.message}"
  | .unlockLost text => s!"Lock release task failed: {lostTaskMessage text}"
  | .staleFinish status task current =>
    s!"Ignoring {status.name} for task {name task}: current task is " ++
      quotedOption (current.map name)
  | .staleStatus task current =>
    s!"Status requested for task {name task} but current task is " ++
      quotedOption (current.map name)
  | .noConfig => "No pinning.toml found, using defaults"

def mappingWarnings (ls : List MappingLine) : List Warning :=
  ls.zipIdx.filterMap fun (l, i) =>
    match l with
    | .malformed raw => some (.malformedMapping (i + 1) raw)
    | _ => none

end PinLedger
