import PinLedger.Text.Blank
import PinLedger.Text.Parts
import PinLedger.Time.Text

/-!
# PinLedger.Sql.Quote

Names and values inside of SQL text.

* `Sql.identifier` — a name, each of its parts between double quotes
* `Sql.literal` — a text between single quotes
* `Sql.timestamp`, `Sql.textArray`, `Sql.optionalText` — the other values
-/

namespace PinLedger.Sql

open Text

/-- The text with each `q` in it written twice. -/
def doubled (q : Char) : List Char → List Char
  | [] => []
  | c :: rest => if c = q then q :: q :: doubled q rest else c :: doubled q rest

/-- The text between two quotes `q`, with those in it doubled. -/
def enclosed (q : Char) (s : List Char) : List Char := q :: doubled q s ++ [q]

/-- A name that may have parts with dots between them. Blanks around a part do not belong to it. -/
def identifier (name : String) : List Char :=
  joined ['.'] ((parts '.' name.toList).map fun p => enclosed '"' (trim p))

def literal (s : String) : List Char := enclosed '\'' s.toList

def timestamp (t : Instant) : List Char := '\'' :: t.chars ++ "'::timestamptz".toList

/-- The moment of a change. -/
def stamp : Stamp → List Char
  | .told t => timestamp t
  | .clock => "'<now>'::timestamptz".toList

def textArray (items : List String) : List Char :=
  "ARRAY[".toList ++ joined [','] (items.map literal) ++ "]::text[]".toList

def optionalText : Option String → List Char
  | none => "NULL".toList
  | some s => literal s

def integer (n : Int) : List Char := signed n

end PinLedger.Sql
