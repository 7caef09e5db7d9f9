import PinLedger.Api.Endpoint
import PinLedger.Api.Failure
import PinLedger.Service.Basic

/-!
# PinLedger.Api.Reply

The requests of clients and the replies to them.

* `Method` — the verbs of requests, as far as they make a difference
* `Reply` — a status and a content
* `Engine.serve` — a request served
-/

namespace PinLedger

inductive Method where
  | get
  | head
  | post
  | options
  | other
deriving DecidableEq, Repr

def Method.ofName : String → Method
  | "GET" => .get
  | "HEAD" => .head
  | "POST" => .post
  | "OPTIONS" => .options
  | _ => .other

/-- What a reply holds. -/
inductive Content where
  | nothing
  | text (s : String)
  | health (database : String)
  | started (task : TaskId) (kind : TaskKind)
  | task (t : TaskState)
  | overview (t : TaskState) (layers : Nat) (tables : List String)
  | failure (f : ApiFailure)
deriving DecidableEq, Repr

structure Reply where
  status : Nat
  content : Content := .nothing
deriving DecidableEq, Repr

namespace Reply

def fail (f : ApiFailure) : Reply := ⟨f.status, .failure f⟩

/-- The reply to a client that wants no content. -/
def bare (r : Reply) : Reply := { r with content := .nothing }

end Reply

def healthReply : Except Trouble Bool → Reply
  | .ok true => ⟨200, .health "connected"⟩
  | .ok false => ⟨200, .health "disconnected"⟩
  | .error (.error e) => ⟨200, .health s!"error: {e.message}"⟩
  | .error (.breakdown text) => .fail (.lost text)

def startReply (kind : TaskKind) : Except Refusal TaskId → Reply
  | .ok task => ⟨202, .started task kind⟩
  | .error _ => .fail (.conflict
      s!"{kind.name} not started: a run is in progress or the store is unavailable")

namespace Engine

/-- What is known of a task, given the text of each task id. -/
def taskReply (e : Engine) (name : TaskId → String) (id : TaskId) : Reply :=
  match e.service.tracker.task id with
  | some t => ⟨200, .task t⟩
  | none => .fail (.notFound s!"Task {name id} is not the current task")

def overview (e : Engine) : Reply :=
  ⟨200, .overview e.service.tracker.state e.service.registry.size e.service.registry.tables⟩

/-- What may be read at an endpoint. A run can only be asked for, not read. -/
def read (e : Engine) (name : TaskId → String) : Endpoint → Option Reply
  | .health => some (healthReply e.site.health)
  | .task id => some (e.taskReply name id)
  | .unreadableTask => some ⟨400, .text "Invalid URL: Invalid UTF-8 in `task_id`"⟩
  | .status => some e.overview
  | .start _ => none

/-- A request served, given the text of each task id. Clients of any site may ask for what is
allowed here, and are told so at every path. -/
def serve (e : Engine) (name : TaskId → String) (m : Method) (p : Option Endpoint) :
    Reply × Engine :=
  match m, p with
  | .options, _ => (⟨200, .nothing⟩, e)
  | _, none => (⟨404, .nothing⟩, e)
  | .post, some (.start kind) =>
    let (r, e) := e.start kind
    (startReply kind r, e)
  | .get, some p => ((e.read name p).getD ⟨405, .nothing⟩, e)
  | .head, some p => (((e.read name p).getD ⟨405, .nothing⟩).bare, e)
  | _, some _ => (⟨405, .nothing⟩, e)

end Engine

end PinLedger
