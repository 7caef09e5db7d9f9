import PinLedger.Reconcile.Case
import PinLedger.Reconcile.EdgeDelta
import PinLedger.StoreError

/-!
# PinLedger.Reconcile.Plan

The plan for a view: the pin and unpin operations that bring its layers from the hull of its former
record to the hull of its new one, and the change of its record. The bounds of a hull are moved to
the nearest times that the tables hold.

* `RowLookup` — a table's answer to a question for its nearest row time
* `planWith` — the plan, with a given way to snap
* `snapDirect`, `snapOnce` — asking for every bound, or once for each
* `plan` — the plan of a view
-/

namespace PinLedger

/-- The row time nearest to an instant in a column; `none` if the table is empty. -/
abbrev RowLookup := Column → Instant → Except StoreError (Option Instant)

/-- Why there is no plan. -/
inductive PlanError where
  | unmapped (view : Int) (layer : String)
  | store (e : StoreError)
  /-- An instant left the calendar. -/
  | overflow
deriving DecidableEq, Repr

/-- One up or down over a range of a table. -/
structure PinOperation where
  layer : MappedLayer
  range : TimeRange
  add : Bool
deriving DecidableEq, Repr

def PinOperation.statement (op : PinOperation) : PinStatement :=
  .shift op.layer.column op.range op.add

/-- What is to be done for a view. -/
structure Plan where
  view : Int
  case : ReconcileCase
  /-- What goes down comes first. -/
  operations : List PinOperation
  statement : Option ViewStatement
deriving DecidableEq, Repr

namespace Plan

def pins (p : Plan) : List PinOperation := p.operations.filter (·.add)

def unpins (p : Plan) : List PinOperation := p.operations.filter (!·.add)

def record (p : Plan) : Option ViewRecord :=
  match p.statement with
  | some (.insert r) | some (.update r) => some r
  | _ => none

end Plan

section Monadic

variable {m : Type → Type} [Monad m] [MonadExceptOf PlanError m]

/-- The value, or the failure of an instant that left the calendar. -/
def withinCalendar {α : Type} : Option α → m α
  | some a => pure a
  | none => throw .overflow

/-- The hull of two times with its bounds snapped, the earlier bound first. -/
def snappedHull (snap : Column → Instant → m Instant) (w : Window) (c : Column) (a b : Instant) :
    m TimeRange := do
  let raw ← withinCalendar (w.hull? a b)
  let start ← snap c raw.start
  let stop ← snap c raw.stop
  pure (.between start stop)

def PlanStep.operations (snap : Column → Instant → m Instant) (w : Window) :
    PlanStep → m (List PinOperation)
  | .cover l a b add => do
    let range ← snappedHull snap w l.column a b
    pure [⟨l, range, add⟩]
  | .move l a b b' => do
    let old ← snappedHull snap w l.column a b
    let new ← snappedHull snap w l.column a b'
    let delta ← withinCalendar (edgeDelta? old new)
    pure (delta.map fun s => ⟨l, s.range, s.add⟩)
  | .unmapped view layer => throw (.unmapped view layer)

/-- The plan of a view, for a way to snap a bound to the times of a column. -/
def planWith (snap : Column → Instant → m Instant) (reg : Registry) (w : Window)
    (previous : Option ViewRecord) (v : ParsedView) : m Plan := do
  let operations := (← (agenda reg w previous v).mapM (PlanStep.operations snap w)).flatten
  pure {
    view := previous.elim v.id (·.id)
    case := classify w previous v
    operations := operations.filter (!·.add) ++ operations.filter (·.add)
    statement := nextStatement w previous v
  }

/-- Asks for every bound. An empty table leaves the bound where it is. -/
def snapDirect (ask : Column → Instant → m (Option Instant)) (c : Column) (t : Instant) :
    m Instant := do
  pure ((← ask c t).getD t)

/-- The answers of one plan. -/
abbrev SnapMemory := List ((Column × Instant) × Instant)

/-- Asks for every bound once, and remembers the answer. -/
def snapOnce (ask : Column → Instant → m (Option Instant)) (c : Column) (t : Instant) :
    StateT SnapMemory m Instant := do
  match (← get).lookup (c, t) with
  | some s => pure s
  | none =>
    let s ← snapDirect (m := m) ask c t
    modify (((c, t), s) :: ·)
    pure s

end Monadic

/-- A lookup as a question that a plan may ask. -/
def RowLookup.ask (lookup : RowLookup) (c : Column) (t : Instant) :
    Except PlanError (Option Instant) :=
  (lookup c t).mapError .store

/-- The plan of a view, asking for each bound at most once. -/
def plan (lookup : RowLookup) (reg : Registry) (w : Window) (previous : Option ViewRecord)
    (v : ParsedView) : Except PlanError Plan :=
  (planWith (snapOnce lookup.ask) reg w previous v).run' []

/-- The plan of a view, asking for each bound whenever it comes up. -/
def planDirect (lookup : RowLookup) (reg : Registry) (w : Window) (previous : Option ViewRecord)
    (v : ParsedView) : Except PlanError Plan :=
  planWith (snapDirect lookup.ask) reg w previous v

/-- Every instant is a row time. -/
def RowLookup.dense : RowLookup := fun _ t => .ok (some t)

namespace PlanError

/-- What a caller of the planner is told. -/
def message : PlanError → String
  | .unmapped view layer => s!"View {view} references layer '{layer}' which has no table mapping"
  | .store e => e.message
  | .overflow => "instant out of range"

/-- The error as the store reports it to the caller of a run. -/
def toStoreError? : PlanError → Option StoreError
  | .unmapped view layer => some (.unmapped view layer)
  | .store e => some e
  | .overflow => none

end PlanError

end PinLedger
