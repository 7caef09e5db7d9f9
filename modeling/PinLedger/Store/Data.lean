import PinLedger.Dict
import PinLedger.Reconcile.Plan
import PinLedger.Statement
import PinLedger.Store.Table

/-!
# PinLedger.Store.Data

What the store holds, and what single statements do to it.

* `StoreData` — tables, view records, watermark and the log of pin statements
* `StoreData.lookup` — the nearest row time, as planning asks for it
* `StoreData.applyPin`, `StoreData.applyView` — one statement carried out
-/

namespace PinLedger

/-- How work on the store ends early: by an error that is reported, or because an instant or a count
leaves its range, which ends the worker as well. -/
inductive Abort where
  | error (e : StoreError)
  | overflow
deriving DecidableEq, Repr

def PlanError.toAbort : PlanError → Abort
  | .unmapped view layer => .error (.unmapped view layer)
  | .store e => .error e
  | .overflow => .overflow

structure StoreData where
  tables : Dict String Table := ∅
  views : ViewTable := .empty
  /-- The watermark of the last run. -/
  lastRun : Option Instant := none
  /-- The pin statements that were carried out, oldest first. -/
  pinLog : List PinStatement := []

namespace StoreData

def table (d : StoreData) (c : Column) (operation : String) : Except StoreError Table :=
  match d.tables.find? c.table with
  | none => .error (.noTable c.table operation)
  | some t => if t.column = c.name then .ok t else .error (.noColumn c)

/-- The row time of a column that is nearest to an instant. -/
def lookup (d : StoreData) : RowLookup := fun c target => do
  let t ← d.table c "nearest_timestamp"
  .ok (t.nearest? target)

def shiftTables (d : StoreData) : PinStatement → Except Abort (Dict String Table)
  | .shift c range add =>
    match d.table c "pin_batch" with
    | .error e => .error (.error e)
    | .ok t =>
      match t.shift? range add with
      | none => .error .overflow
      | some t' => .ok (d.tables.modify c.table fun _ => t')
  | .reset name =>
    if d.tables.contains name then .ok (d.tables.modify name Table.clear)
    else .error (.error (.noTable name "pin_batch"))

/-- Carries out a pin statement and notes it in the log. -/
def applyPin (d : StoreData) (s : PinStatement) : Except Abort StoreData :=
  match d.shiftTables s with
  | .error a => .error a
  | .ok tables => .ok { d with tables, pinLog := d.pinLog ++ [s] }

def applyView (d : StoreData) (s : ViewStatement) : StoreData :=
  { d with views := d.views.apply s }

end StoreData

end PinLedger
