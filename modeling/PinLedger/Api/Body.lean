import PinLedger.Api.Reply
import PinLedger.Json.Value

/-!
# PinLedger.Api.Body

The bodies of replies.

* `TaskState.json` — what is told of a task
* `ApiFailure.json` — what is told of a failure
* `Content.json` — the body of a reply, null if it has none
-/

namespace PinLedger

open Json

def RunSummary.json (s : RunSummary) : Value := .object [
  ("views_seen", .natural s.viewsSeen), ("created", .natural s.created),
  ("updated", .natural s.updated), ("disabled", .natural s.disabled),
  ("unchanged", .natural s.unchanged), ("ignored", .natural s.ignored),
  ("pin_statements", .natural s.pinStatements), ("view_statements", .natural s.viewStatements),
  ("watermark", .optional (.text ·.render) s.watermark)]

/-- What is told of a task, given the text of each task id. -/
def TaskState.json (name : TaskId → String) (t : TaskState) : Value := .object [
  ("task_id", .optional (.text <| name ·) t.taskId), ("kind", .optional (.text ·.name) t.kind),
  ("status", .text t.status.name), ("started_at", .optional (.text ·.render) t.startedAt),
  ("finished_at", .optional (.text ·.render) t.finishedAt), ("failure", .optional .text t.failure),
  ("summary", .optional RunSummary.json t.summary)]

/-- What is told of a failure; details are left out where there are none. -/
def ApiFailure.json (f : ApiFailure) : Value := .object
  ([("code", .text f.code), ("message", .text f.message)] ++
    f.details.toList.map fun d => ("details", .text d))

/-- The body of a reply, given the text of each task id. -/
def Content.json (name : TaskId → String) : Content → Value
  | .nothing => .null
  | .text s => .text s
  | .health database => .object [
      ("status", .text "ok"), ("version", .text "v1"), ("database", .text database)]
  | .started id kind => .object [
      ("task_id", .text (name id)), ("kind", .text kind.name),
      ("status", .text TaskStatus.running.name)]
  | .task t => t.json name
  | .overview t layers tables => .object [
      ("task", t.json name),
      ("registry", .object [("layer_ids", .natural layers), ("tables", .listOf .text tables)])]
  | .failure f => f.json

end PinLedger
