import PinLedger.Layer
import PinLedger.ViewTable

/-!
# PinLedger.Statement

The changes that a run asks of the store.

* `PinStatement` — a change of the pin counts of a table
* `ViewStatement` — a change of the view records
* `ViewTable.apply` — a view statement carried out, and how many records it touched
-/

namespace PinLedger

/-- A change of the pin counts of one table. -/
inductive PinStatement where
  /-- One up or down for the rows whose time lies in the range. -/
  | shift (column : Column) (range : TimeRange) (add : Bool)
  /-- Down to zero for all rows. -/
  | reset (table : String)
deriving DecidableEq, Repr

def PinStatement.table : PinStatement → String
  | .shift c _ _ => c.table
  | .reset t => t

/-- A change of the view records. -/
inductive ViewStatement where
  | insert (record : ViewRecord)
  | update (record : ViewRecord)
  | delete (id : Int)
deriving DecidableEq, Repr

def ViewStatement.id : ViewStatement → Int
  | .insert r | .update r => r.id
  | .delete id => id

namespace ViewTable

/-- An insert adds or replaces a record, an update only replaces one. -/
def apply (t : ViewTable) : ViewStatement → ViewTable
  | .insert r => t.put r
  | .update r => if t.contains r.id then t.put r else t
  | .delete id => t.erase id

/-- How many records a statement touches: one, or none if it is an update or a delete of an unknown
id. -/
def touched (t : ViewTable) : ViewStatement → Nat
  | .insert _ => 1
  | .update r => if t.contains r.id then 1 else 0
  | .delete id => if t.contains id then 1 else 0

end ViewTable

end PinLedger
