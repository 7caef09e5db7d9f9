import PinLedger.Store.Work

/-!
# PinLedger.Store.Basic

The store: the committed data, the sessions and their locks.

* `Store.openSession`, `Store.dropSession` — sessions; a dropped session holds no lock
* `Store.tryLock`, `Store.unlock` — a lock has one holder at most, and only the holder frees it
* `Store.transaction` — work that is committed as a whole or not at all
-/

namespace PinLedger

/-- Sessions are numbered as they are opened. -/
abbrev SessionId := Nat

structure Store where
  data : StoreData := {}
  /-- The holder of each lock key that is held. -/
  locks : Dict Int SessionId := ∅
  faults : Faults := {}
  nextSession : SessionId := 0

namespace Store

/-! ### Data -/

/-- Adds or replaces a table whose rows nothing pins. -/
def createTable (s : Store) (c : Column) (times : List Instant) : Store :=
  { s with data := { s.data with
    tables := s.data.tables.insert c.table (.ofTimes c.name times) } }

/-- Changes a table, if there is one of this name. -/
def modifyTable (s : Store) (table : String) (f : Table → Table) : Store :=
  { s with data := { s.data with tables := s.data.tables.modify table f } }

def insertRows (s : Store) (table : String) (times : List Instant) : Store :=
  s.modifyTable table (·.insertTimes times)

def setPin (s : Store) (table : String) (time : Instant) (pin : Int) : Store :=
  s.modifyTable table (·.setPin time pin)

def rows (s : Store) (table : String) : List Row :=
  (s.data.tables.find? table).elim [] (·.rows)

def pinAt? (s : Store) (table : String) (time : Instant) : Option Int := do
  (← s.data.tables.find? table).pinAt? time

def clearPinLog (s : Store) : Store := { s with data := { s.data with pinLog := [] } }

/-! ### Faults -/

/-- Lets the pin batch after so many successful ones fail. -/
def failPinBatchAfter (s : Store) (n : Nat) : Store :=
  { s with faults := { s.faults with batchesLeft := some n } }

def setHealthy (s : Store) (healthy : Bool) : Store :=
  { s with faults := { s.faults with unreachable := !healthy } }

def clearFaults (s : Store) : Store := { s with faults := {} }

def isHealthy (s : Store) : Bool := !s.faults.unreachable

/-! ### Sessions and locks -/

def openSession (s : Store) : Except StoreError (SessionId × Store) :=
  if s.faults.unreachable then .error .unreachable
  else .ok (s.nextSession, { s with nextSession := s.nextSession + 1 })

def isLocked (s : Store) (key : Int) : Bool := s.locks.contains key

/-- Takes a free lock. The answer is whether the session holds it now. -/
def tryLock (s : Store) (session : SessionId) (key : Int) : Bool × Store :=
  match s.locks.find? key with
  | some holder => (holder = session, s)
  | none => (true, { s with locks := s.locks.insert key session })

/-- Frees a lock that the session holds. The answer is whether it held it. -/
def unlock (s : Store) (session : SessionId) (key : Int) : Bool × Store :=
  if s.locks.find? key = some session then (true, { s with locks := s.locks.erase key })
  else (false, s)

/-- Ends a session, and frees the locks that it holds. -/
def dropSession (s : Store) (session : SessionId) : Store :=
  { s with locks := s.locks.filter fun e => e.2 ≠ session }

/-! ### Transactions -/

/-- What work left behind: its outcome, its workspace, and the store with the data committed if the
work succeeded. Told failures that came up are used up in any case. -/
structure Outcome (α : Type) where
  result : Except Abort α
  workspace : Workspace
  store : Store

/-- Does work on a copy of the data, which replaces the data if the work succeeds. -/
def transaction {α : Type} (s : Store) (pinBatch viewBatch : Nat) (work : Work α) : Outcome α :=
  let (result, w) := work.run.run (.start s.data s.faults pinBatch viewBatch)
  { result
    workspace := w
    store :=
      match result with
      | .ok _ => { s with data := w.data, faults := w.faults }
      | .error _ => { s with faults := w.faults } }

end Store

end PinLedger
