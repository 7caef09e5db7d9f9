import PinLedger.Toml.Moment
import PinLedger.Toml.Number
import PinLedger.Toml.Table
import PinLedger.Toml.Text

/-!
# PinLedger.Toml.Document

Configuration documents: values by dotted keys, below headers that name tables.

* `Toml.readValue` — a value of any kind
* `Toml.readDocument` — the table that a document is, unless it is malformed
-/

namespace PinLedger.Toml

/-! ### Values -/

def readWord (word : String) (s : List Char) : Option (List Char) :=
  if word.toList.isPrefixOf s then some (s.drop word.length) else none

/-- The entries of a table in braces, put together. -/
def inlineTable (pairs : List (List String × Value)) : Option Value := do
  let es ← pairs.foldlM (fun es p => addKey p.1 p.2 es) []
  some (Node.table .header es).finish

mutual

/-- A value that may hold others to the given depth, less one. -/
def readValueAt : (fuel depth : Nat) → List Char → Option (Value × List Char)
  | 0, _, _ => none
  | _, _, [] => none
  | fuel + 1, depth, c :: s =>
    if c = '"' ∨ c = '\'' then
      (readString (c :: s)).map fun (v, rest) => (.text v, rest)
    else if c = '[' then
      if depth ≤ 1 then none
      else (readItems fuel (depth - 1) s).map fun (vs, rest) => (.list vs, rest)
    else if c = '\x7b' then
      if depth ≤ 1 then none
      else do
        let (pairs, rest) ← readPairs fuel (depth - 1) s
        some (← inlineTable pairs, rest)
    else if c = 't' then (readWord "true" (c :: s)).map fun rest => (.boolean true, rest)
    else if c = 'f' then (readWord "false" (c :: s)).map fun rest => (.boolean false, rest)
    else
      ((readMoment (c :: s)).map fun (m, rest) => (Value.moment m, rest)).or <|
        ((readReal (c :: s)).map fun (x, rest) => (Value.real x, rest)).or <|
          (readInteger (c :: s)).map fun (n, rest) => (Value.integer n, rest)

/-- The further elements of a list and its end. A comma may stand behind the last element. -/
def readItems : (fuel depth : Nat) → List Char → Option (List Value × List Char)
  | 0, _, _ => none
  | fuel + 1, depth, s =>
    match skipBlankLines s with
    | ']' :: rest => some ([], rest)
    | s => do
      let (v, rest) ← readValueAt fuel depth s
      match skipBlankLines rest with
      | ']' :: rest => some ([v], rest)
      | ',' :: rest =>
        let (vs, rest) ← readItems fuel depth rest
        some (v :: vs, rest)
      | _ => none

/-- The entries of a table in braces and its end. -/
def readPairs : (fuel depth : Nat) → List Char → Option (List (List String × Value) × List Char)
  | 0, _, _ => none
  | fuel + 1, depth, s =>
    match skipSpace s with
    | '\x7d' :: rest => some ([], rest)
    | s => readMorePairs fuel depth s

/-- One more entry of a table in braces, and those that follow. -/
def readMorePairs : (fuel depth : Nat) → List Char →
    Option (List (List String × Value) × List Char)
  | 0, _, _ => none
  | fuel + 1, depth, s => do
    let (key, rest) ← readKey s
    match rest with
    | '=' :: rest =>
      let (v, rest) ← readValueAt fuel depth (skipSpace rest)
      match skipSpace rest with
      | '\x7d' :: rest => some ([(key, v)], rest)
      | ',' :: rest =>
        let (more, rest) ← readMorePairs fuel depth rest
        some ((key, v) :: more, rest)
      | _ => none
    | _ => none

end

def readValue (s : List Char) : Option (Value × List Char) :=
  readValueAt (3 * s.length + 3) maxDepth s

/-! ### Documents -/

/-- A document in the making: its entries, and the header under which keys are added. -/
structure Draft where
  entries : Entries := []
  header : List String := []

def readHeader (d : Draft) : List Char → Option (Draft × List Char)
  | '[' :: '[' :: s => do
    let (key, rest) ← readKey s
    match rest with
    | ']' :: ']' :: rest => some (⟨← openListed key d.entries, key⟩, ← restOfLine rest)
    | _ => none
  | '[' :: s => do
    let (key, rest) ← readKey s
    match rest with
    | ']' :: rest => some (⟨← openTable key d.entries, key⟩, ← restOfLine rest)
    | _ => none
  | _ => none

/-- A line with a key and its value, which may go over several lines. -/
def readPair (d : Draft) (s : List Char) : Option (Draft × List Char) := do
  let (key, rest) ← readKey s
  match rest with
  | '=' :: rest =>
    let (v, rest) ← readValue (skipSpace rest)
    let entries ← addBelow d.header key v d.entries
    some ({ d with entries }, ← restOfLine rest)
  | _ => none

def readBody : (fuel : Nat) → Draft → List Char → Option Draft
  | 0, _, _ => none
  | fuel + 1, d, s =>
    match skipSpace s with
    | [] => some d
    | c :: s =>
      if c = '#' ∨ c = '\n' ∨ c = '\r' then do readBody fuel d (← restOfLine (c :: s))
      else do
        let (d, rest) ← if c = '[' then readHeader d (c :: s) else readPair d (c :: s)
        readBody fuel d rest

/-- The table that a document is. A byte order mark may stand in front of it. -/
def readDocument (text : String) : Option Value := do
  let s := match text.toList with
    | '\uFEFF' :: s => s
    | s => s
  let d ← readBody (s.length + 1) {} s
  some (Node.table .header d.entries).finish

end PinLedger.Toml
