import PinLedger.Text.Quoted

/-!
# PinLedger.Mismatch

Elements of a document that are not what was asked for.

* `Found` — what an element is
* `Mismatch` — in which way it is not what was asked for
* `Mismatch.message` — what is said about it
-/

namespace PinLedger

/-- What was found where something else was asked for. -/
inductive Found where
  | null
  | boolean (b : Bool)
  | integer (n : Int)
  /-- A number that is not an integer, as it is written in messages. -/
  | float (text : String)
  | text (s : String)
  | list
  | object
deriving DecidableEq, Repr

def Found.describe : Found → String
  | .null => "null"
  | .boolean b => s!"boolean \x60{b}\x60"
  | .integer n => s!"integer \x60{n}\x60"
  | .float t => s!"floating point \x60{t}\x60"
  | .text s => s!"string {quoted s}"
  | .list => "sequence"
  | .object => "map"

inductive Mismatch where
  /-- A value of another type. -/
  | invalidType (found : Found) (expected : String)
  /-- A value of the type that is not allowed. -/
  | invalidValue (found : Found) (expected : String)
  | missingField (name : String)
  | duplicateField (name : String)
  /-- A list of so many elements where a structure needs more. -/
  | invalidLength (count : Nat) (expected : String)
deriving DecidableEq, Repr

def Mismatch.message : Mismatch → String
  | .invalidType found expected => s!"invalid type: {found.describe}, expected {expected}"
  | .invalidValue found expected => s!"invalid value: {found.describe}, expected {expected}"
  | .missingField name => s!"missing field \x60{name}\x60"
  | .duplicateField name => s!"duplicate field \x60{name}\x60"
  | .invalidLength count expected => s!"invalid length {count}, expected {expected}"

/-- What messages call a structure that is written as a list of so many elements. -/
def describeStructure (name : String) (count : Nat) : String :=
  let plural := if count = 1 then "" else "s"
  s!"struct {name} with {count} element{plural}"

end PinLedger
