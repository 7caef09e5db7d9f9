import PinLedger.Layer.Catalog
import PinLedger.Layer.Mapping
import PinLedger.NameSet

/-!
# PinLedger.Layer.Registry

The registry: the columns that each layer id stands for.

* `Registry.insert` — one more binding of a layer id
* `Registry.layersFor` — the bindings of a layer id, none if it is unknown
* `Registry.tables` — the names of all tables, each once, in order
* `Registry.resolve` — the registry of a mapping and a catalog
-/

namespace PinLedger

/-- Bindings by layer id. -/
structure Registry where
  bindings : Dict String (List MappedLayer)
deriving DecidableEq

namespace Registry

def empty : Registry := ⟨∅⟩

/-- The bindings of a layer id, in the order in which they came. -/
def layersFor (r : Registry) (layer : String) : List MappedLayer :=
  (r.bindings.find? layer).getD []

/-- Adds a binding to those of its layer id, unless it is there. -/
def insert (r : Registry) (l : MappedLayer) : Registry :=
  let known := r.layersFor l.layer
  ⟨r.bindings.insert l.layer (if l ∈ known then known else known ++ [l])⟩

def ofLayers (ls : List MappedLayer) : Registry := ls.foldl insert empty

def contains (r : Registry) (layer : String) : Bool := r.bindings.contains layer

def size (r : Registry) : Nat := r.bindings.size

def tableSet (r : Registry) : NameSet :=
  .ofList (r.bindings.values.flatten.map (·.column.table))

def tables (r : Registry) : List String := r.tableSet.toList

/-- A way to ask the catalog for a column, which may fail. -/
abbrev Lookup := String → String → Except CatalogError (Option Column)

/-- A registry in the making, and the entries that the catalog did not know. -/
structure Resolution where
  registry : Registry
  skipped : List MappingEntry

/-- One more entry: bound to its column, or skipped if the catalog does not know it. -/
def Resolution.add (lookup : Lookup) (s : Resolution) (e : MappingEntry) :
    Except CatalogError Resolution :=
  match lookup e.workspace e.name with
  | .error err => .error err
  | .ok none => .ok { s with skipped := s.skipped ++ [e] }
  | .ok (some c) => .ok { s with registry := s.registry.insert ⟨e.layer, e.workspace, e.name, c⟩ }

/-- The entries up to the first for which the catalog fails, and how it failed there. -/
def resolveFrom (lookup : Lookup) (s : Resolution) :
    List MappingEntry → Resolution × Option CatalogError
  | [] => (s, none)
  | e :: rest =>
    match s.add lookup e with
    | .error err => (s, some err)
    | .ok s => resolveFrom lookup s rest

def resolve (lookup : Lookup) (es : List MappingEntry) : Resolution × Option CatalogError :=
  resolveFrom lookup ⟨empty, []⟩ es

end Registry

/-- A catalog always answers. -/
def Catalog.lookup (c : Catalog) : Registry.Lookup := fun workspace name =>
  .ok (c.find? workspace name)

end PinLedger
