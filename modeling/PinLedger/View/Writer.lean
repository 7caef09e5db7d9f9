import PinLedger.Json.Value
import PinLedger.Layer
import PinLedger.Statement
import PinLedger.Time.Text

/-!
# PinLedger.View.Writer

Views, layers and statements as elements of documents.

* `ViewRecord.json`, `ParsedView.json` — what is kept and what is asked for of a view
* `MappedLayer.json` — a layer with its column
* `ViewStatement.json` — a change of a record
-/

namespace PinLedger

open Json

def TimeMode.name : TimeMode → String
  | .absolute => "absolute"
  | .relative => "relative"
  | .unknown => "unknown"

def instantJson (t : Instant) : Value := .text t.render

def ViewRecord.json (r : ViewRecord) : Value := .object [
  ("id", .integer r.id), ("time_original", instantJson r.timeOriginal),
  ("time_main", instantJson r.timeMain), ("layers", .listOf .text r.layers.toList),
  ("last_update", .text r.lastUpdate.render), ("driving_layer", .optional .text r.drivingLayer)]

def ParsedView.json (v : ParsedView) : Value := .object [
  ("view_id", .integer v.id), ("layers", .listOf .text v.layers), ("time", instantJson v.time),
  ("time_mode", .text v.timeMode.name), ("disabled", .boolean v.disabled),
  ("driving_layer", .optional .text v.drivingLayer),
  ("last_update", .optional instantJson v.lastUpdate)]

def MappedLayer.json (l : MappedLayer) : Value := .object [
  ("layer_id", .text l.layer), ("workspace", .text l.workspace), ("layer_name", .text l.name),
  ("table_name", .text l.column.table), ("temporal_attribute", .text l.column.name)]

def ViewStatement.json : ViewStatement → Value
  | .insert r => .object [("kind", .text "insert"), ("record", r.json)]
  | .update r => .object [("kind", .text "update"), ("record", r.json)]
  | .delete id => .object [("kind", .text "delete"), ("view_id", .integer id)]

end PinLedger
