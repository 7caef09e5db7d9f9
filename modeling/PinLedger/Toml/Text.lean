import PinLedger.Text.Hex

/-!
# PinLedger.Toml.Text

The parts of a document that are made of text: blanks, comments, the ends of lines, keys and
strings. Each reader takes its part from the front of the text and gives the rest.

* `Toml.lineEnd`, `Toml.restOfLine` — the end of a line, what may stand before it
* `Toml.readString` — a string in one of its four forms
* `Toml.readKey` — the parts of a dotted key
-/

namespace PinLedger.Toml

open Text

def isSpace (c : Char) : Bool := c = ' ' || c = '\t'

def skipSpace (s : List Char) : List Char := s.dropWhile isSpace

/-- No control character but the tabulator may stand in a text. -/
def isPlain (c : Char) : Bool := c = '\t' || (32 ≤ c.toNat && c.toNat ≠ 127)

/-- The text after the end of a line, or the end of the text. -/
def lineEnd : List Char → Option (List Char)
  | [] => some []
  | '\n' :: s => some s
  | '\r' :: '\n' :: s => some s
  | _ => none

def lineBreak : List Char → Option (List Char)
  | '\n' :: s => some s
  | '\r' :: '\n' :: s => some s
  | _ => none

def skipComment : List Char → List Char
  | '#' :: s => s.dropWhile isPlain
  | s => s

/-- The text after a line of which nothing is left but blanks and a comment. -/
def restOfLine (s : List Char) : Option (List Char) := lineEnd (skipComment (skipSpace s))

/-- The text after blanks, comments and line breaks. -/
def skipLines : (fuel : Nat) → List Char → List Char
  | 0, s => s
  | fuel + 1, s =>
    match skipSpace s with
    | '#' :: rest =>
      match lineBreak (skipComment ('#' :: rest)) with
      | some rest => skipLines fuel rest
      | none => '#' :: rest
    | s =>
      match lineBreak s with
      | some rest => skipLines fuel rest
      | none => s

/-- The text after blanks, comments and line breaks. -/
def skipBlankLines (s : List Char) : List Char := skipLines (s.length + 1) s

/-! ### Strings -/

def codePoint (n : Nat) : Option Char :=
  if h : n.isValidChar then some (Char.ofNatAux n h) else none

def readHex : (count value : Nat) → List Char → Option (Nat × List Char)
  | 0, value, s => some (value, s)
  | _ + 1, _, [] => none
  | count + 1, value, c :: s => do readHex count (16 * value + (← hexValue? c)) s

/-- The character of an escape whose backslash has been read. -/
def readEscape : List Char → Option (Char × List Char)
  | [] => none
  | c :: s =>
    match c with
    | '"' | '\\' => some (c, s)
    | 'b' => some ('\x08', s)
    | 'f' => some ('\x0c', s)
    | 'n' => some ('\n', s)
    | 'r' => some ('\r', s)
    | 't' => some ('\t', s)
    | 'u' => do
      let (n, rest) ← readHex 4 0 s
      some (← codePoint n, rest)
    | 'U' => do
      let (n, rest) ← readHex 8 0 s
      some (← codePoint n, rest)
    | _ => none

/-- The characters of a string on one line up to the closing mark. Escapes count if asked for. -/
def readLineString (mark : Char) (escapes : Bool) :
    (fuel : Nat) → List Char → Option (List Char × List Char)
  | 0, _ => none
  | _, [] => none
  | fuel + 1, c :: s =>
    if c = mark then some ([], s)
    else if escapes ∧ c = '\\' then do
      let (d, s) ← readEscape s
      let (ds, s) ← readLineString mark escapes fuel s
      some (d :: ds, s)
    else if isPlain c then do
      let (ds, s) ← readLineString mark escapes fuel s
      some (c :: ds, s)
    else none

/-- The end of a string of several lines. Up to two marks may stand before the three that close
it. -/
def closing (mark : Char) (s : List Char) : Option (List Char × List Char) :=
  let count := (s.takeWhile (· = mark)).length
  if count < 3 then none
  else
    let extra := min (count - 3) 2
    some (List.replicate extra mark, s.drop (extra + 3))

def endsLine (s : List Char) : Bool := (lineBreak (skipSpace s)).isSome

/-- The text after blanks and line breaks; a return alone is none of them. -/
def skipSpaceAndBreaks : (fuel : Nat) → List Char → List Char
  | 0, s => s
  | fuel + 1, s =>
    match lineBreak (skipSpace s) with
    | some rest => skipSpaceAndBreaks fuel rest
    | none => skipSpace s

/-- The characters of a string of several lines. A backslash at the end of a line hides the line
break and all blanks and line breaks that follow. -/
def readLines (mark : Char) (escapes : Bool) :
    (fuel : Nat) → List Char → Option (List Char × List Char)
  | 0, _ => none
  | _, [] => none
  | fuel + 1, c :: s =>
    match closing mark (c :: s) with
    | some done => some done
    | none =>
      if escapes ∧ c = '\\' then
        if endsLine s then readLines mark escapes fuel (skipSpaceAndBreaks (s.length + 1) s)
        else do
          let (d, s) ← readEscape s
          let (ds, s) ← readLines mark escapes fuel s
          some (d :: ds, s)
      else
        match lineBreak (c :: s) with
        | some rest => do
          let (ds, s) ← readLines mark escapes fuel rest
          some ('\n' :: ds, s)
        | none =>
          if isPlain c then do
            let (ds, s) ← readLines mark escapes fuel s
            some (c :: ds, s)
          else none

/-- A string between single marks; a double mark allows for escapes. -/
def readShort : List Char → Option (String × List Char)
  | c :: s =>
    if c = '"' ∨ c = '\'' then do
      let (cs, rest) ← readLineString c (c = '"') s.length s
      some (String.ofList cs, rest)
    else none
  | [] => none

/-- A string. Three marks begin one of several lines; a line break right behind them does not
count. -/
def readString : List Char → Option (String × List Char)
  | a :: b :: c :: s =>
    if (a = '"' ∨ a = '\'') ∧ b = a ∧ c = a then do
      let s := (lineBreak s).getD s
      let (cs, rest) ← readLines a (a = '"') (s.length + 1) s
      some (String.ofList cs, rest)
    else readShort (a :: b :: c :: s)
  | s => readShort s

/-! ### Keys -/

def isBareKey (c : Char) : Bool :=
  ('a' ≤ c && c ≤ 'z') || ('A' ≤ c && c ≤ 'Z') || ('0' ≤ c && c ≤ '9') || c = '-' || c = '_'

/-- One part of a key, as it is or between marks. -/
def readKeyPart (s : List Char) : Option (String × List Char) :=
  match s with
  | '"' :: _ | '\'' :: _ => readShort s
  | _ =>
    let word := s.takeWhile isBareKey
    if word.isEmpty then none else some (String.ofList word, s.dropWhile isBareKey)

/-- The parts of a key, with dots between them and blanks around them. -/
def readKeyParts : (fuel : Nat) → List Char → Option (List String × List Char)
  | 0, _ => none
  | fuel + 1, s => do
    let (part, rest) ← readKeyPart (skipSpace s)
    match skipSpace rest with
    | '.' :: rest =>
      let (parts, rest) ← readKeyParts fuel rest
      some (part :: parts, rest)
    | rest => some ([part], rest)

/-- Keys and lists may be nested less than this deep. -/
def maxDepth : Nat := 80

def readKey (s : List Char) : Option (List String × List Char) := do
  let (parts, rest) ← readKeyParts (s.length + 1) s
  if parts.length < maxDepth then some (parts, rest) else none

end PinLedger.Toml
