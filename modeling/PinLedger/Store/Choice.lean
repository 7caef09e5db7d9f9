import PinLedger.Store.Basic
import PinLedger.Text.Blank

/-!
# PinLedger.Store.Choice

The choice of a store.

* `StoreChoice.read` — the choice that a name stands for
* `StoreChoice.create` — a new store
-/

namespace PinLedger

open Text

inductive StoreChoice where
  /-- A database; not available here. -/
  | postgres
  /-- A store in memory. -/
  | memory
deriving DecidableEq, Repr

/-- There is no database here. -/
def StoreError.noDatabase : StoreError :=
  .plain .configuration "Postgres repository feature not enabled"

namespace StoreChoice

/-- The choice that a name stands for. Blanks around the name and the case of its letters do not
count; the names consist of letters that are the small form of no letter beyond `Z`. -/
def read (name : String) : Except String StoreChoice :=
  let word := String.ofList ((trim name.toList).map Char.toLower)
  if word = "postgres" ∨ word = "pg" then .ok .postgres
  else if word = "local" ∨ word = "memory" then .ok .memory
  else .error s!"Unknown repository type: {name}"

def name : StoreChoice → String
  | .postgres => "Postgres"
  | .memory => "Local"

def create : StoreChoice → Except StoreError Store
  | .postgres => .error .noDatabase
  | .memory => .ok {}

end StoreChoice

end PinLedger
