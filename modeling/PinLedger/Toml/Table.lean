import PinLedger.Toml.Value

/-!
# PinLedger.Toml.Table

The tables of a document while it is being read. A table is opened by a header once, and then grows
by the keys below the header; keys with dots open tables of their own.

* `Toml.Node` — what a key stands for
* `Toml.changeAt` — the table at the end of a path changed, with the tables on the way opened
* `Toml.addKey`, `Toml.openTable`, `Toml.openListed` — the three ways in which tables grow
* `Toml.Node.value` — the finished value
-/

namespace PinLedger.Toml

/-- How a table came to be. -/
inductive Origin where
  /-- It has a header of its own. -/
  | header
  /-- It is on the way to a table with a header. -/
  | implied
  /-- It is on the way of a key with dots. -/
  | dotted
deriving DecidableEq, Repr

/-- What a key of a table stands for. -/
inductive Node where
  | value (v : Value)
  | table (origin : Origin) (entries : List (String × Node))
  /-- Tables of one name, each with a header. -/
  | tables (items : List (List (String × Node)))

abbrev Entries := List (String × Node)

def replaceEntry (key : String) (n : Node) (es : Entries) : Entries :=
  es.map fun e => if e.1 = key then (key, n) else e

/-- Changes the table at the end of a path. Tables that are missing are opened with the given
origin; a key with dots does not lead into a table that has a header. Of tables of one name the last
one counts. -/
def changeAt (opened : Origin) (change : Origin → Entries → Option Entries) :
    List String → Origin → Entries → Option Entries
  | [], origin, es => change origin es
  | key :: path, _, es =>
    match es.lookup key with
    | none => do
      let child ← changeAt opened change path opened []
      some (es ++ [(key, .table opened child)])
    | some (.value _) => none
    | some (.table origin child) =>
      if opened = .dotted ∧ origin = .header then none
      else do
        let child ← changeAt opened change path origin child
        some (replaceEntry key (.table origin child) es)
    | some (.tables items) =>
      match items.getLast? with
      | none => none
      | some last => do
        let last ← changeAt opened change path .header last
        some (replaceEntry key (.tables (items.dropLast ++ [last])) es)

/-- Adds a key that the table does not have. A key with dots adds to a table that keys with dots
have opened, and only such a key does. -/
def addHere (dotted : Bool) (key : String) (v : Value) (origin : Origin) (es : Entries) :
    Option Entries :=
  if dotted ≠ (origin = .dotted) then none
  else if (es.lookup key).isSome then none
  else some (es ++ [(key, .value v)])

/-- A path taken apart into the way and its last key. -/
def splitLast : List String → Option (List String × String)
  | [] => none
  | k :: ks =>
    match splitLast ks with
    | none => some ([], k)
    | some (way, last) => some (k :: way, last)

def addKey (path : List String) (v : Value) (es : Entries) : Option Entries := do
  let (way, key) ← splitLast path
  changeAt .dotted (addHere (!way.isEmpty) key v) way .header es

def addBelow (header path : List String) (v : Value) (es : Entries) : Option Entries :=
  changeAt .implied (fun _ => addKey path v) header .header es

/-- Opens the table of a header. One that other headers implied is moved to the end. -/
def openHere (key : String) (es : Entries) : Option Entries :=
  match es.lookup key with
  | none => some (es ++ [(key, .table .header [])])
  | some (.table .implied child) =>
    some (es.filter (·.1 ≠ key) ++ [(key, .table .header child)])
  | _ => none

def openTable (header : List String) (es : Entries) : Option Entries := do
  let (way, key) ← splitLast header
  changeAt .implied (fun _ => openHere key) way .header es

/-- Opens one more of the tables of one name. -/
def openListedHere (key : String) (es : Entries) : Option Entries :=
  match es.lookup key with
  | none => some (es ++ [(key, .tables [[]])])
  | some (.tables items) => some (replaceEntry key (.tables (items ++ [[]])) es)
  | _ => none

def openListed (header : List String) (es : Entries) : Option Entries := do
  let (way, key) ← splitLast header
  changeAt .implied (fun _ => openListedHere key) way .header es

mutual

def Node.finish : Node → Value
  | .value v => v
  | .table _ es => .table (finishEntries es)
  | .tables items => .list (finishItems items)

def finishEntries : List (String × Node) → List (String × Value)
  | [] => []
  | (key, n) :: es => (key, n.finish) :: finishEntries es

def finishItems : List (List (String × Node)) → List Value
  | [] => []
  | es :: rest => .table (finishEntries es) :: finishItems rest

end

end PinLedger.Toml
