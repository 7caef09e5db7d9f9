import PinLedger.Json.Token
import PinLedger.Json.Value

/-!
# PinLedger.Json.Reader

Readers of typed elements. A reader knows how many more containers may be nested, takes its element
from the front of a text, and gives the rest. A fault names the way from its element to the place.

* `Json.readInt`, `Json.readBool`, `Json.readText`, `Json.readInstant` — plain elements
* `Json.optional`, `Json.listOf`, `Json.choice` — elements made of others
* `Json.structure` — an object with known fields, or the list of their values
* `Json.skipValue` — an element nobody asked for
* `Json.readValue` — an element of any kind
-/

namespace PinLedger.Json

/-- Reads an element, in which `depth` more containers may be nested, less one. -/
abbrev Reader (α : Type) := (depth : Nat) → List Char → Except Fault (α × List Char)

/-- How deep a document may be nested, plus one. -/
def maxDepth : Nat := 128

def here {α : Type} (r : Reason) : Except Fault α := .error ⟨[], r⟩

def atHere {α : Type} (x : Except Reason α) : Except Fault α := x.mapError (⟨[], ·⟩)

/-- What comes of an element inside of the element. -/
def within {α : Type} (s : Segment) (x : Except Fault α) : Except Fault α := x.mapError (·.under s)

/-- What is wrong with an element that is not of the expected kind. A malformed element is that in
the first place. -/
def misfit (expected : String) (s : List Char) : Reason :=
  let unlessMalformed {α : Type} (x : Except Reason α) (found : α → Found) : Reason :=
    match x with
    | .error r => r
    | .ok a => .mismatch (.invalidType (found a) expected)
  match s with
  | [] => .endInValue
  | c :: rest =>
    if c = 'n' then unlessMalformed (readWord "ull".toList rest) fun _ => .null
    else if c = 't' then unlessMalformed (readWord "rue".toList rest) fun _ => .boolean true
    else if c = 'f' then unlessMalformed (readWord "alse".toList rest) fun _ => .boolean false
    else if c = '-' ∨ Text.isDigit c then unlessMalformed (readNumber s) fun a => a.1.found
    else if c = '"' then unlessMalformed (readString rest) fun a => .text a.1
    else if c = '[' then .mismatch (.invalidType .list expected)
    else if c = '\x7b' then .mismatch (.invalidType .object expected)
    else .expectedValue

/-! ### Plain elements -/

def readIntToken (s : List Char) : Except Reason (Int × List Char) := do
  let (n, rest) ← readNumber s
  match n with
  | .natural k =>
    if k < signLimit 64 then .ok (k, rest) else .error (.mismatch (.invalidValue n.found "i64"))
  | .negative k => .ok (-k, rest)
  | .double _ _ => .error (.mismatch (.invalidType n.found "i64"))

/-- An integer of 64 bits. -/
def readInt : Reader Int := fun _ s =>
  match skipBlank s with
  | [] => here .endInValue
  | c :: rest =>
    if c = '-' ∨ Text.isDigit c then atHere (readIntToken (c :: rest))
    else here (misfit "i64" (c :: rest))

def readBool : Reader Bool := fun _ s =>
  match skipBlank s with
  | 't' :: rest => atHere do
    let ((), rest) ← readWord "rue".toList rest
    .ok (true, rest)
  | 'f' :: rest => atHere do
    let ((), rest) ← readWord "alse".toList rest
    .ok (false, rest)
  | s => here (misfit "a boolean" s)

/-- A string, under the name by which messages ask for it. -/
def readStringAs (expected : String) (s : List Char) : Except Reason (String × List Char) :=
  match skipBlank s with
  | '"' :: rest => readString rest
  | s => .error (misfit expected s)

def readText : Reader String := fun _ s => atHere (readStringAs "a string" s)

def readInstant : Reader Instant := fun _ s => atHere do
  let (text, rest) ← readStringAs "an RFC 3339 formatted date and time string" s
  match Instant.read text.toList with
  | .ok t => .ok (t, rest)
  | .error f => .error (.notAnInstant f)

/-! ### Elements made of others -/

def optional {α : Type} (r : Reader α) : Reader (Option α) := fun depth s =>
  match skipBlank s with
  | 'n' :: rest => atHere do
    let ((), rest) ← readWord "ull".toList rest
    .ok (none, rest)
  | s => do
    let (a, rest) ← r depth s
    .ok (some a, rest)

/-- Goes to the next element of a list, or stays before its end. -/
def nextItem (first : Bool) (s : List Char) : Except Reason (Bool × List Char) :=
  match skipBlank s with
  | [] => .error .endInList
  | c :: rest =>
    if c = ']' then .ok (false, c :: rest)
    else if first then .ok (true, c :: rest)
    else if c = ',' then
      match skipBlank rest with
      | [] => .error .endInValue
      | d :: rest => if d = ']' then .error .trailingComma else .ok (true, d :: rest)
    else .error .expectedListEnd

def closeList (s : List Char) : Except Reason (List Char) :=
  match skipBlank s with
  | [] => .error .endInList
  | c :: rest =>
    if c = ']' then .ok rest
    else if c = ',' ∧ (skipBlank rest).head? = some ']' then .error .trailingComma
    else .error .trailingCharacters

def readItems {α : Type} (r : Reader α) (depth : Nat) :
    (fuel : Nat) → (i : Nat) → List Char → Except Fault (List α × List Char)
  | 0, _, _ => here .endInList
  | fuel + 1, i, s => do
    match ← atHere (nextItem (i = 0) s) with
    | (false, s) => .ok ([], s)
    | (true, s) =>
      let (a, s) ← within (.index i) (r depth s)
      let (as, s) ← readItems r depth fuel (i + 1) s
      .ok (a :: as, s)

def listOf {α : Type} (r : Reader α) : Reader (List α) := fun depth s =>
  match skipBlank s with
  | '[' :: rest =>
    if depth ≤ 1 then here .tooDeep
    else do
      let (as, rest) ← readItems r (depth - 1) (rest.length + 1) 0 rest
      .ok (as, ← atHere (closeList rest))
  | s => here (misfit "a sequence" s)

/-- The next key of an object, or none before its end. -/
def nextKey (first : Bool) (s : List Char) : Except Reason (Option String × List Char) :=
  let key (rest : List Char) : Except Reason (Option String × List Char) := do
    let (k, rest) ← readString rest
    .ok (some k, rest)
  match skipBlank s with
  | [] => .error .endInObject
  | c :: rest =>
    if c = '\x7d' then .ok (none, c :: rest)
    else if first then (if c = '"' then key rest else .error .keyNotString)
    else if c = ',' then
      match skipBlank rest with
      | [] => .error .endInValue
      | d :: rest =>
        if d = '"' then key rest
        else if d = '\x7d' then .error .trailingComma
        else .error .keyNotString
    else .error .expectedObjectEnd

def readColon (s : List Char) : Except Reason (List Char) :=
  match skipBlank s with
  | [] => .error .endInObject
  | c :: rest => if c = ':' then .ok rest else .error .expectedColon

def closeObject (s : List Char) : Except Reason (List Char) :=
  match skipBlank s with
  | [] => .error .endInObject
  | c :: rest =>
    if c = '\x7d' then .ok rest
    else if c = ',' then .error .trailingComma
    else .error .trailingCharacters

/-- The null that stands for the value of a choice. -/
def readUnit (s : List Char) : Except Reason (List Char) :=
  match skipBlank s with
  | 'n' :: rest => do
    let ((), rest) ← readWord "ull".toList rest
    .ok rest
  | s => .error (misfit "unit" s)

/-- A choice by its name, as a string or as an object that gives the name a null. -/
def choice {α : Type} (named : String → α) : Reader α := fun depth s =>
  match skipBlank s with
  | [] => here .endInValue
  | c :: rest =>
    if c = '"' then atHere do
      let (name, rest) ← readString rest
      .ok (named name, rest)
    else if c = '\x7b' then
      if depth ≤ 1 then here .tooDeep
      else do
        let (name, rest) ← atHere (readStringAs "variant identifier" rest)
        let rest ← atHere (readColon rest)
        let rest ← within (.key name) (atHere (readUnit rest))
        match skipBlank rest with
        | [] => here .endInObject
        | d :: rest => if d = '\x7d' then .ok (named name, rest) else here .expectedValue
    else here .expectedValue

/-! ### Elements nobody asked for -/

mutual

/-- The text after an element of any kind and any depth. -/
def skipElement : (fuel : Nat) → List Char → Except Reason (List Char)
  | 0, _ => .error .endInValue
  | fuel + 1, s =>
    match skipBlank s with
    | [] => .error .endInValue
    | c :: rest =>
      if c = 'n' then (readWord "ull".toList rest).map (·.2)
      else if c = 't' then (readWord "rue".toList rest).map (·.2)
      else if c = 'f' then (readWord "alse".toList rest).map (·.2)
      else if c = '-' ∨ Text.isDigit c then (skipNumber (c :: rest)).map (·.2)
      else if c = '"' then (skipString rest).map (·.2)
      else if c = '[' then skipListRest fuel true rest
      else if c = '\x7b' then skipObjectRest fuel true rest
      else .error .expectedValue

/-- The text after the further elements of a list. -/
def skipListRest : (fuel : Nat) → (first : Bool) → List Char → Except Reason (List Char)
  | 0, _, _ => .error .endInList
  | fuel + 1, first, s =>
    match skipBlank s with
    | [] => .error .endInList
    | c :: rest =>
      if c = ']' then .ok rest
      else if first then do skipListRest fuel false (← skipElement fuel (c :: rest))
      else if c = ',' then do skipListRest fuel false (← skipElement fuel rest)
      else .error .expectedListEnd

/-- The text after the further members of an object. -/
def skipObjectRest : (fuel : Nat) → (first : Bool) → List Char → Except Reason (List Char)
  | 0, _, _ => .error .endInObject
  | fuel + 1, first, s =>
    match skipBlank s with
    | [] => .error .endInObject
    | c :: rest =>
      if c = '\x7d' then .ok rest
      else if first then skipMember fuel (c :: rest)
      else if c = ',' then skipMember fuel rest
      else .error .expectedObjectEnd

/-- The text after a member of an object and those that follow it. -/
def skipMember : (fuel : Nat) → List Char → Except Reason (List Char)
  | 0, _ => .error .endInObject
  | fuel + 1, s =>
    match skipBlank s with
    | [] => .error .endInObject
    | c :: rest =>
      if c = '"' then do
        let ((), rest) ← skipString rest
        let rest ← readColon rest
        skipObjectRest fuel false (← skipElement fuel rest)
      else .error .keyNotString

end

def skipValue (s : List Char) : Except Reason (List Char) := skipElement (2 * s.length + 2) s

/-! ### Structures -/

/-- A field of a structure. -/
structure Field (α : Type) where
  name : String
  /-- Other keys for the field. -/
  aliases : List String := []
  /-- The structure is not complete without it. -/
  required : Bool
  /-- Reads the value and gives what it changes. -/
  read : Reader (α → α)

/-- A structure: its name in messages, its fields, and its value with no field given. -/
structure Shape (α : Type) where
  name : String
  fields : List (Field α)
  blank : α

namespace Shape

variable {α : Type}

def field? (sh : Shape α) (key : String) : Option (Field α) :=
  sh.fields.find? fun f => f.name = key ∨ key ∈ f.aliases

/-- The first required field that has not been seen. -/
def missing? (sh : Shape α) (seen : List String) : Option String :=
  (sh.fields.find? fun f => f.required ∧ f.name ∉ seen).map (·.name)

/-- The members of an object, after those of the fields `seen`. -/
def readMembers (sh : Shape α) (depth : Nat) :
    (fuel : Nat) → (first : Bool) → α → (seen : List String) → List Char →
      Except Fault (α × List Char)
  | 0, _, _, _, _ => here .endInObject
  | fuel + 1, first, a, seen, s => do
    match ← within .unread (atHere (nextKey first s)) with
    | (none, s) =>
      match sh.missing? seen with
      | some name => here (.mismatch (.missingField name))
      | none => .ok (a, s)
    | (some key, s) =>
      match sh.field? key with
      | some f =>
        if f.name ∈ seen then here (.mismatch (.duplicateField f.name))
        else
          let s ← atHere (readColon s)
          let (change, s) ← within (.key key) (f.read depth s)
          sh.readMembers depth fuel false (change a) (f.name :: seen) s
      | none =>
        let s ← atHere (readColon s)
        let s ← within (.key key) (atHere (skipValue s))
        sh.readMembers depth fuel false a seen s

/-- The values of the fields from the `i`-th on, in their order. -/
def readPositional (sh : Shape α) (depth : Nat) :
    (i : Nat) → List (Field α) → α → List Char → Except Fault (α × List Char)
  | _, [], a, s => .ok (a, s)
  | i, f :: fs, a, s => do
    match ← atHere (nextItem (i = 0) s) with
    | (true, s) =>
      let (change, s) ← within (.index i) (f.read depth s)
      sh.readPositional depth (i + 1) fs (change a) s
    | (false, s) =>
      if f.required then
        here (.mismatch (.invalidLength i (describeStructure sh.name sh.fields.length)))
      else sh.readPositional depth (i + 1) fs a s

/-- The structure as an object of its fields, or as the list of their values. Keys of no field are
skipped; missing values at the end of a list are not missed if their fields are not required. -/
def reader (sh : Shape α) : Reader α := fun depth s =>
  match skipBlank s with
  | [] => here .endInValue
  | c :: rest =>
    if c = '[' then
      if depth ≤ 1 then here .tooDeep
      else do
        let (a, rest) ← sh.readPositional (depth - 1) 0 sh.fields sh.blank rest
        .ok (a, ← atHere (closeList rest))
    else if c = '\x7b' then
      if depth ≤ 1 then here .tooDeep
      else do
        let (a, rest) ← sh.readMembers (depth - 1) (rest.length + 1) true sh.blank [] rest
        .ok (a, ← atHere (closeObject rest))
    else here (misfit s!"struct {sh.name}" (c :: rest))

/-- The structure at the start of a document. What follows it is not looked at. -/
def readDocument (sh : Shape α) (text : String) : Except Fault α :=
  (sh.reader maxDepth text.toList).map (·.1)

end Shape

/-! ### Elements of any kind -/

mutual

def readAny : (fuel : Nat) → Reader Value
  | 0, _, _ => here .endInValue
  | fuel + 1, depth, s =>
    match skipBlank s with
    | [] => here .endInValue
    | c :: rest =>
      if c = 'n' then atHere ((readWord "ull".toList rest).map fun a => (.null, a.2))
      else if c = 't' then
        atHere ((readWord "rue".toList rest).map fun a => (.boolean true, a.2))
      else if c = 'f' then
        atHere ((readWord "alse".toList rest).map fun a => (.boolean false, a.2))
      else if c = '-' ∨ Text.isDigit c then
        atHere ((readNumber (c :: rest)).map fun a => (.number a.1, a.2))
      else if c = '"' then atHere ((readString rest).map fun a => (.text a.1, a.2))
      else if c = '[' then
        if depth ≤ 1 then here .tooDeep
        else do
          let (items, rest) ← readAnyItems fuel (depth - 1) 0 rest
          .ok (.list items, ← atHere (closeList rest))
      else if c = '\x7b' then
        if depth ≤ 1 then here .tooDeep
        else do
          let (members, rest) ← readAnyMembers fuel (depth - 1) true rest
          .ok (.object members, ← atHere (closeObject rest))
      else here .expectedValue

def readAnyItems : (fuel depth i : Nat) → List Char → Except Fault (List Value × List Char)
  | 0, _, _, _ => here .endInList
  | fuel + 1, depth, i, s => do
    match ← atHere (nextItem (i = 0) s) with
    | (false, s) => .ok ([], s)
    | (true, s) =>
      let (v, s) ← within (.index i) (readAny fuel depth s)
      let (vs, s) ← readAnyItems fuel depth (i + 1) s
      .ok (v :: vs, s)

def readAnyMembers : (fuel depth : Nat) → (first : Bool) → List Char →
    Except Fault (List (String × Value) × List Char)
  | 0, _, _, _ => here .endInObject
  | fuel + 1, depth, first, s => do
    match ← within .unread (atHere (nextKey first s)) with
    | (none, s) => .ok ([], s)
    | (some key, s) =>
      let s ← atHere (readColon s)
      let (v, s) ← within (.key key) (readAny fuel depth s)
      let (ms, s) ← readAnyMembers fuel depth false s
      .ok ((key, v) :: ms, s)

end

def readValue : Reader Value := fun depth s => readAny (2 * s.length + 2) depth s

end PinLedger.Json
