import PinLedger.Task.State
import PinLedger.Text.Hex
import PinLedger.Text.Parts

/-!
# PinLedger.Api.Endpoint

What the path of a request stands for.

* `Endpoint` — the things that can be asked for
* `percentDecode` — a path segment with its escapes resolved
* `Endpoint.ofPath` — the endpoint of a path
-/

namespace PinLedger

open Text

inductive Endpoint where
  /-- Whether the store can be reached. -/
  | health
  /-- The start of a run. -/
  | start (kind : TaskKind)
  /-- The state of a task. -/
  | task (id : TaskId)
  /-- The state of a task whose id is no text. -/
  | unreadableTask
  /-- The current task and the registry. -/
  | status
deriving DecidableEq, Repr

/-- The bytes of a text with every `%` and two hexadecimal digits replaced by the byte that they
give. Any other `%` stands for itself. -/
def percentBytes : List Char → List UInt8
  | [] => []
  | '%' :: a :: b :: rest =>
    match hexValue? a, hexValue? b with
    | some m, some n => UInt8.ofNat (16 * m + n) :: percentBytes rest
    | _, _ => (String.utf8EncodeChar '%') ++ percentBytes (a :: b :: rest)
  | c :: rest => String.utf8EncodeChar c ++ percentBytes rest
termination_by cs => cs.length

/-- A text with its escapes resolved, unless the bytes are no text then. -/
def percentDecode (cs : List Char) : Option String :=
  String.fromUTF8? ⟨(percentBytes cs).toArray⟩

def pathOf (target : String) : List Char :=
  target.toList.takeWhile fun c => c ≠ '?' ∧ c ≠ '#'

def Endpoint.ofPath (target : String) : Option Endpoint :=
  match (parts '/' (pathOf target)).map String.ofList with
  | ["", "health"] => some .health
  | ["", "v1", "pinning", "reset"] => some (.start .reset)
  | ["", "v1", "pinning", "incremental"] => some (.start .incremental)
  | ["", "v1", "pinning", "status"] => some .status
  | ["", "v1", "pinning", "tasks", id] =>
    if id = "" then none
    else some ((percentDecode id.toList).elim .unreadableTask fun s => .task (.foreign s))
  | _ => none

end PinLedger
