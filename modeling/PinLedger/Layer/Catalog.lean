import PinLedger.Dict
import PinLedger.Layer

/-!
# PinLedger.Layer.Catalog

The catalog: where the layers of the workspaces keep their data.

* `CatalogEntry` — one declared layer
* `Catalog.ofEntries` — the catalog of a list of declarations
* `Catalog.find?` — the column of a layer
* `CatalogError` — why the registry could not be made
-/

namespace PinLedger

/-- A declared layer and its column. -/
structure CatalogEntry where
  workspace : String
  name : String
  column : Column
deriving DecidableEq, Repr

/-- Columns by workspace and layer name. -/
structure Catalog where
  columns : Dict (String × String) Column

namespace Catalog

/-- A later declaration replaces an earlier one of the same layer. -/
def ofEntries (es : List CatalogEntry) : Catalog :=
  ⟨.ofList (es.map fun e => ((e.workspace, e.name), e.column))⟩

def find? (c : Catalog) (workspace name : String) : Option Column :=
  c.columns.find? (workspace, name)

def size (c : Catalog) : Nat := c.columns.size

end Catalog

/-- Why a registry could not be made. -/
inductive CatalogError where
  /-- The mapping could not be read. -/
  | mappingFile (path : String)
  /-- The catalog did not answer. -/
  | lookup (layer text : String)
  /-- The catalog broke down, and with it the work that asked. -/
  | breakdown (text : String)
deriving DecidableEq, Repr

def CatalogError.message : CatalogError → String
  | .mappingFile path => s!"Failed to read layer mapping {path}"
  | .lookup layer text => s!"Catalog lookup failed for {layer}: {text}"
  | .breakdown text => text

end PinLedger
