import PinLedger.Mismatch
import PinLedger.Number.Shortest

/-!
# PinLedger.Toml.Value

The values of a configuration document.

* `Toml.Real` — numbers with a fraction, and the special ones
* `Toml.Value` — values of any kind
* `Toml.Value.found` — what messages call a value
-/

namespace PinLedger.Toml

/-- A number that is not an integer. -/
inductive Real where
  | finite (negative : Bool) (x : Binary64)
  | infinite (negative : Bool)
  | notANumber
deriving DecidableEq, Repr

/-- Always positional, with a digit on either side of the point. -/
def realFormat : FloatFormat := ⟨none⟩

def Real.text : Real → String
  | .finite negative x => String.ofList (realFormat.render negative x)
  | .infinite negative => if negative then "-inf" else "inf"
  | .notANumber => "NaN"

inductive Value where
  | text (s : String)
  | integer (n : Int)
  | real (x : Real)
  | boolean (b : Bool)
  /-- A date, a time or both, as it is written. -/
  | moment (written : String)
  | list (items : List Value)
  /-- The keys are distinct and in the order in which they came. -/
  | table (entries : List (String × Value))

/-- What messages call a value. A moment is to them a table with a key of its own. -/
def Value.found : Value → Found
  | .text s => .text s
  | .integer n => .integer n
  | .real x => .float x.text
  | .boolean b => .boolean b
  | .moment _ => .object
  | .list _ => .list
  | .table _ => .object

end PinLedger.Toml
