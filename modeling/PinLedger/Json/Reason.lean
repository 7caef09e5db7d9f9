import PinLedger.Mismatch
import PinLedger.Number.Shortest
import PinLedger.Time.Reader

/-!
# PinLedger.Json.Reason

Why a document cannot be read, and where.

* `Json.Reason` — what is wrong
* `Json.Path` — the way from the top of a document to an element
* `Json.Fault` — a reason at a place
-/

namespace PinLedger.Json

/-- A number of a document. -/
inductive Number where
  /-- Below 2⁶⁴. -/
  | natural (n : Nat)
  /-- Minus `n`, not below -2⁶³. -/
  | negative (n : Nat)
  | double (minus : Bool) (x : Binary64)
deriving DecidableEq, Repr

/-- From 10⁻⁵ to 10¹⁶ numbers are written positionally. -/
def floatFormat : FloatFormat := ⟨some (-5, 15)⟩

def Number.found : Number → Found
  | .natural n => .integer n
  | .negative n => .integer (-n)
  | .double minus x => .float (String.ofList (floatFormat.render minus x))

/-- What is wrong with a document. -/
inductive Reason where
  | endInValue
  | endInList
  | endInObject
  | endInString
  | expectedValue
  | expectedIdent
  | expectedColon
  | expectedListEnd
  | expectedObjectEnd
  | keyNotString
  | trailingComma
  | trailingCharacters
  | invalidNumber
  | numberOutOfRange
  | invalidEscape
  | controlCharacter
  | loneSurrogate
  | endOfHexEscape
  | tooDeep
  /-- An element that is not what was asked for. -/
  | mismatch (m : Mismatch)
  | notAnInstant (f : InstantFault)
deriving DecidableEq, Repr

/-- What is wrong, in words. They come without the position in the text of the document that stands
behind them in a message, as in ` at line 1 column 5`: a reader keeps no position. -/
def Reason.message : Reason → String
  | .endInValue => "EOF while parsing a value"
  | .endInList => "EOF while parsing a list"
  | .endInObject => "EOF while parsing an object"
  | .endInString => "EOF while parsing a string"
  | .expectedValue => "expected value"
  | .expectedIdent => "expected ident"
  | .expectedColon => "expected \x60:\x60"
  | .expectedListEnd => "expected \x60,\x60 or \x60]\x60"
  | .expectedObjectEnd => "expected \x60,\x60 or \x60\x7d\x60"
  | .keyNotString => "key must be a string"
  | .trailingComma => "trailing comma"
  | .trailingCharacters => "trailing characters"
  | .invalidNumber => "invalid number"
  | .numberOutOfRange => "number out of range"
  | .invalidEscape => "invalid escape"
  | .controlCharacter => "control character (\\u0000-\\u001F) found while parsing a string"
  | .loneSurrogate => "lone leading surrogate in hex escape"
  | .endOfHexEscape => "unexpected end of hex escape"
  | .tooDeep => "recursion limit exceeded"
  | .mismatch m => m.message
  | .notAnInstant f => f.message

/-- A step on the way to an element. -/
inductive Segment where
  | index (i : Nat)
  | key (k : String)
  /-- A key that could not be read. -/
  | unread
deriving DecidableEq, Repr

abbrev Path := List Segment

/-- The rest of a path; a dot stands before each key but the first step. -/
def renderSegments : (first : Bool) → Path → String
  | _, [] => ""
  | _, .index i :: rest => s!"[{i}]" ++ renderSegments false rest
  | first, .key k :: rest => (if first then "" else ".") ++ k ++ renderSegments false rest
  | first, .unread :: rest => (if first then "?" else ".?") ++ renderSegments false rest

/-- The text of a path; a single dot for the top. -/
def renderPath (p : Path) : String := if p.isEmpty then "." else renderSegments true p

/-- What is wrong, and where. -/
structure Fault where
  path : Path
  reason : Reason
deriving DecidableEq, Repr

def Fault.under (s : Segment) (f : Fault) : Fault := { f with path := s :: f.path }

end PinLedger.Json
