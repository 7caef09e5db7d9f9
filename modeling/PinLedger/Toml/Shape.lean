import PinLedger.Number.Word
import PinLedger.Toml.Value

/-!
# PinLedger.Toml.Shape

Typed values of a document.

* `Toml.Reader` — how a value is read as one of a type
* `Toml.readText`, `Toml.readWithin`, `Toml.listOf` — plain values and lists
* `Toml.Shape` — structures with named fields
-/

namespace PinLedger.Toml

/-- A value as one of a type, or in which way it is none. -/
abbrev Reader (α : Type) := Value → Except Mismatch α

/-- A text, under the name by which messages ask for it. -/
def readTextAs (expected : String) : Reader String
  | .text s => .ok s
  | v => .error (.invalidType v.found expected)

def readText : Reader String := readTextAs "a string"

/-- An integer in a range, under the name by which messages ask for it. -/
def readWithin (expected : String) (lo hi : Int) : Reader Int
  | .integer n =>
    if lo ≤ n ∧ n ≤ hi then .ok n else .error (.invalidValue (.integer n) expected)
  | v => .error (.invalidType v.found expected)

/-- A natural number of so many bits. -/
def readNatural (expected : String) (bits : Nat) : Reader Nat := fun v =>
  (readWithin expected 0 (wordLimit bits - 1) v).map Int.toNat

def listOf {α : Type} (r : Reader α) : Reader (List α)
  | .list items => items.mapM r
  | v => .error (.invalidType v.found "a sequence")

/-- A field of a structure. -/
structure Field (α : Type) where
  name : String
  /-- The structure is not complete without it. -/
  required : Bool
  /-- Reads the value and gives what it changes. -/
  read : Reader (α → α)

/-- A field whose value is put into the structure by `put`. -/
def fieldOf {α β : Type} (name : String) (required : Bool) (r : Reader β) (put : β → α → α) :
    Field α where
  name
  required
  read := fun v => (r v).map put

/-- A structure: its name in messages, its fields, and its value with no field given. -/
structure Shape (α : Type) where
  name : String
  fields : List (Field α)
  blank : α

namespace Shape

variable {α : Type}

/-- The structure with one more entry of a table; an entry of no field is left out. -/
def addEntry (sh : Shape α) (a : α) (e : String × Value) : Except Mismatch α :=
  match sh.fields.find? (·.name = e.1) with
  | none => .ok a
  | some f => (f.read e.2).map (· a)

/-- The structure with the entries of a table, of which each required field has to be one. -/
def ofEntries (sh : Shape α) (es : List (String × Value)) : Except Mismatch α := do
  let a ← es.foldlM sh.addEntry sh.blank
  match sh.fields.find? fun f => f.required ∧ (es.lookup f.name).isNone with
  | some f => .error (.missingField f.name)
  | none => .ok a

/-- The structure with the values of the fields in their order, from the `i`-th on. Missing values
at the end are not missed if their fields are not required. -/
def ofItems (sh : Shape α) : (i : Nat) → List (Field α) → α → List Value → Except Mismatch α
  | _, [], a, _ => .ok a
  | i, f :: fs, a, [] =>
    if f.required then .error (.invalidLength i (describeStructure sh.name sh.fields.length))
    else sh.ofItems i fs a []
  | i, f :: fs, a, v :: vs => do
    let change ← f.read v
    sh.ofItems (i + 1) fs (change a) vs

/-- The structure as a table of its fields, or as the list of their values. A moment is a table
without any of the fields. -/
def reader (sh : Shape α) : Reader α
  | .table es => sh.ofEntries es
  | .moment _ => sh.ofEntries []
  | .list items => sh.ofItems 0 sh.fields sh.blank items
  | v => .error (.invalidType v.found s!"struct {sh.name}")

end Shape

end PinLedger.Toml
