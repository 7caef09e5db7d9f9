import PinLedger.Layer

/-!
# PinLedger.StoreError

What can go wrong in the store, as it is reported to callers.

* `ErrorContext` — what was being done, to what
* `StoreError` — a kind of error, its message and its context
* `StoreError.noTable`, `StoreError.noColumn`, … — the errors that the store and its writers raise
-/

namespace PinLedger

/-- What was being done when an error came up. -/
structure ErrorContext where
  operation : Option String := none
  entity : Option String := none
  entityId : Option String := none
  details : Option String := none
  /-- A later attempt may succeed. -/
  retryable : Bool := false
deriving DecidableEq, Repr

def ErrorContext.render (c : ErrorContext) : String :=
  let part (name : String) (value : Option String) := (value.map (name ++ "=" ++ ·)).toList
  "[" ++ ", ".intercalate (part "operation" c.operation ++ part "entity" c.entity ++
    part "id" c.entityId ++ part "details" c.details ++
    (if c.retryable then ["retryable=true"] else [])) ++ "]"

/-- The kinds of errors. -/
inductive ErrorKind where
  | connection
  | query
  | notFound
  | validation
  | configuration
  | internal
  | transaction
deriving DecidableEq, Repr

def ErrorKind.title : ErrorKind → String
  | .connection => "Connection error"
  | .query => "Query error"
  | .notFound => "Not found"
  | .validation => "Data validation error"
  | .configuration => "Configuration error"
  | .internal => "Internal error"
  | .transaction => "Transaction error"

def ErrorKind.name : ErrorKind → String
  | .connection => "ConnectionError"
  | .query => "QueryError"
  | .notFound => "NotFound"
  | .validation => "ValidationError"
  | .configuration => "ConfigurationError"
  | .internal => "InternalError"
  | .transaction => "TransactionError"

structure StoreError where
  kind : ErrorKind
  text : String
  context : ErrorContext := {}
deriving DecidableEq, Repr

namespace StoreError

/-- An error with no context. A lost connection is always worth another attempt. -/
def plain (kind : ErrorKind) (text : String) : StoreError :=
  ⟨kind, text, { retryable := kind = .connection }⟩

/-- An error with a context. A lost connection is always worth another attempt. -/
def within (kind : ErrorKind) (text : String) (context : ErrorContext) : StoreError :=
  ⟨kind, text, { context with retryable := context.retryable || kind = .connection }⟩

def message (e : StoreError) : String := s!"{e.kind.title}: {e.text} {e.context.render}"

/-- Whether a later attempt may succeed. Only what depends on the connection, a query or a
transaction may. -/
def isRetryable (e : StoreError) : Bool :=
  match e.kind with
  | .connection | .query | .transaction => e.context.retryable
  | _ => false

def withOperation (e : StoreError) (operation : String) : StoreError :=
  { e with context := { e.context with operation := some operation } }

/-! ### The errors of the store -/

def noTable (table operation : String) : StoreError :=
  .within .query s!"relation \"{table}\" does not exist"
    { operation := some operation, entity := some "table", entityId := some table }

def noColumn (c : Column) : StoreError :=
  .within .query s!"column \"{c.name}\" does not exist"
    { operation := some "pin_batch", entity := some "table", entityId := some c.table }

/-- A batch of pin statements was told to fail. -/
def batchFault : StoreError :=
  .within .query "injected pin batch failure" { operation := some "pin_batch" }

def unreachable : StoreError :=
  .within .connection "local repository marked unhealthy" { operation := some "open_session" }

/-- A statement came to a writer that had been released. -/
def released (writer : String) : StoreError :=
  .within .internal s!"{writer} used after release"
    { operation := some "enqueue", entity := some writer }

def unmapped (view : Int) (layer : String) : StoreError :=
  .within .validation s!"layer '{layer}' has no table mapping"
    { operation := some "reconcile", entity := some "view", entityId := some (toString view),
      details := some s!"layer_id={layer}" }

end StoreError

end PinLedger
