import PinLedger.Statement

/-!
# PinLedger.Statement.Chunk

View statements gathered for the store: neighbouring inserts of distinct views go together.

* `ViewChunk` — what is sent at once
* `coalesce` — the chunks of a batch, in its order
-/

namespace PinLedger

/-- View statements that are carried out at once. -/
inductive ViewChunk where
  /-- Inserts of distinct views. -/
  | insert (records : List ViewRecord)
  | update (record : ViewRecord)
  | delete (id : Int)
deriving DecidableEq, Repr

def ViewChunk.statements : ViewChunk → List ViewStatement
  | .insert rs => rs.map .insert
  | .update r => [.update r]
  | .delete id => [.delete id]

/-- The chunk of the inserts gathered so far, if there are any. -/
def closeRun : List ViewRecord → List ViewChunk
  | [] => []
  | r :: rs => [.insert (r :: rs)]

/-- The chunks of a batch that follows the inserts of `run`. A run of inserts ends at a statement of
another kind or at an insert of a view that it holds already. -/
def coalesceAfter (run : List ViewRecord) : List ViewStatement → List ViewChunk
  | [] => closeRun run
  | .insert r :: rest =>
    if run.any (·.id = r.id) then closeRun run ++ coalesceAfter [r] rest
    else coalesceAfter (run ++ [r]) rest
  | .update r :: rest => closeRun run ++ .update r :: coalesceAfter [] rest
  | .delete id :: rest => closeRun run ++ .delete id :: coalesceAfter [] rest

/-- The chunks of a batch. -/
def coalesce (batch : List ViewStatement) : List ViewChunk := coalesceAfter [] batch

end PinLedger
