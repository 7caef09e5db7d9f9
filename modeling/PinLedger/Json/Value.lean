import PinLedger.Json.Reason
import PinLedger.Text.Hex

/-!
# PinLedger.Json.Value

Elements of documents, and their text.

* `Json.Value` — elements of any kind
* `Json.Value.chars` — the text of an element, without blanks
-/

namespace PinLedger.Json

open Text

/-- An element of any kind. -/
inductive Value where
  | null
  | boolean (b : Bool)
  | number (n : Number)
  | text (s : String)
  | list (items : List Value)
  | object (members : List (String × Value))

namespace Value

/-- An integer of 64 bits. -/
def integer (n : Int) : Value :=
  .number (if n < 0 then .negative n.natAbs else .natural n.toNat)

def natural (n : Nat) : Value := .number (.natural n)

def optional {α : Type} (f : α → Value) (o : Option α) : Value := o.elim .null f

def listOf {α : Type} (f : α → Value) (l : List α) : Value := .list (l.map f)

end Value

/-- A character inside a string: quotes, backslashes and control characters are escaped. -/
def escaped (c : Char) : List Char :=
  if c = '"' then ['\\', '"']
  else if c = '\\' then ['\\', '\\']
  else if c = '\x08' then ['\\', 'b']
  else if c = '\x0c' then ['\\', 'f']
  else if c = '\n' then ['\\', 'n']
  else if c = '\r' then ['\\', 'r']
  else if c = '\t' then ['\\', 't']
  else if c.toNat < 32 then
    ['\\', 'u', '0', '0', hexDigit (c.toNat / 16), hexDigit (c.toNat % 16)]
  else [c]

def stringChars (s : String) : List Char := '"' :: s.toList.flatMap escaped ++ ['"']

def Number.chars : Number → List Char
  | .natural n => decimal n
  | .negative n => '-' :: decimal n
  | .double minus x => floatFormat.render minus x

mutual

def Value.chars : Value → List Char
  | .null => ['n', 'u', 'l', 'l']
  | .boolean true => ['t', 'r', 'u', 'e']
  | .boolean false => ['f', 'a', 'l', 's', 'e']
  | .number n => n.chars
  | .text s => stringChars s
  | .list items => '[' :: itemChars items ++ [']']
  | .object members => '\x7b' :: memberChars members ++ ['\x7d']

def itemChars : List Value → List Char
  | [] => []
  | [v] => v.chars
  | v :: w :: rest => v.chars ++ ',' :: itemChars (w :: rest)

def memberChars : List (String × Value) → List Char
  | [] => []
  | [(k, v)] => stringChars k ++ ':' :: v.chars
  | (k, v) :: m :: rest => stringChars k ++ ':' :: v.chars ++ ',' :: memberChars (m :: rest)

end

def Value.render (v : Value) : String := String.ofList v.chars

end PinLedger.Json
