import PinLedger.Store.Data
import PinLedger.View.Writer

/-!
# PinLedger.Store.Writer

What the store holds, as an element.

* `StoreData.json` — the rows that are pinned, the records and the watermark
-/

namespace PinLedger

open Json

def Row.json (r : Row) : Value := .list [instantJson r.time, .integer r.pin]

/-- The rows that are pinned, by table; the records; and the watermark. -/
def StoreData.json (d : StoreData) : Value := .object [
  ("pins", .object (d.tables.entries.map fun (name, t) =>
    (name, .listOf Row.json (t.rows.filter (·.pin ≠ 0))))),
  ("views", .listOf ViewRecord.json d.views.toList),
  ("last_run", .optional instantJson d.lastRun)]

end PinLedger
