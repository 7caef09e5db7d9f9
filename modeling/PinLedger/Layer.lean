/-!
# PinLedger.Layer

The data behind a layer.

* `Column` — the temporal column of a data table, by which its rows are selected
* `MappedLayer` — a layer bound to the column that holds its times
-/

namespace PinLedger

/-- A column of instants in a data table. -/
structure Column where
  /-- May be qualified by a schema. -/
  table : String
  name : String
deriving DecidableEq, Repr

/-- A layer id bound to a column. One id may be bound several times. -/
structure MappedLayer where
  layer : String
  workspace : String
  name : String
  column : Column
deriving DecidableEq, Repr

/-- The name by which the catalog knows the layer. -/
def MappedLayer.qualifiedName (l : MappedLayer) : String := s!"{l.workspace}:{l.name}"

end PinLedger
