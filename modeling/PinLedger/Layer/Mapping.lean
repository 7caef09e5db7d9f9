import PinLedger.Text.Blank
import PinLedger.Text.Lines
import PinLedger.Text.Parts

/-!
# PinLedger.Layer.Mapping

The layer mapping: which layers of the catalog a layer id stands for. One entry is a line of three
fields with commas between them.

* `MappingLine.read` — what one line is
* `readMapping` — the lines of a text
* `MappingEntry.render` — an entry as a line
-/

namespace PinLedger

open Text

/-- A layer id and the layer of the catalog that it stands for. -/
structure MappingEntry where
  layer : String
  workspace : String
  name : String
deriving DecidableEq, Repr

/-- What a line of the mapping is. -/
inductive MappingLine where
  /-- Blank, or a comment. -/
  | ignored
  | entry (e : MappingEntry)
  | malformed (raw : String)
deriving DecidableEq, Repr

/-- A comment starts with a number sign. An entry has three fields, none of them blank; blanks
around the line and around its fields do not count. -/
def MappingLine.read (raw : List Char) : MappingLine :=
  let line := trim raw
  if line = [] ∨ line.head? = some '#' then .ignored
  else
    match (parts ',' line).map trim with
    | [layer, workspace, name] =>
      if layer = [] ∨ workspace = [] ∨ name = [] then .malformed (String.ofList raw)
      else .entry ⟨String.ofList layer, String.ofList workspace, String.ofList name⟩
    | _ => .malformed (String.ofList raw)

def readMapping (text : String) : List MappingLine := (lines text.toList).map MappingLine.read

def MappingLine.entry? : MappingLine → Option MappingEntry
  | .entry e => some e
  | _ => none

def mappingEntries (ls : List MappingLine) : List MappingEntry := ls.filterMap MappingLine.entry?

def MappingEntry.render (e : MappingEntry) : List Char :=
  joined [','] [e.layer.toList, e.workspace.toList, e.name.toList]

end PinLedger
