import PinLedger.StoreError

/-!
# PinLedger.Store.Queue

A queue of statements that wait to be carried out together.

* `Queue.push` — one more statement, and whether the batch is full
* `Queue.take` — all waiting statements
* `Queue.release` — the end of the queue; what still waits is discarded
-/

namespace PinLedger

structure Queue (α : Type) where
  /-- Named in messages. -/
  name : String
  /-- A batch is full with so many statements. -/
  batchSize : Nat
  pending : List α := []
  /-- How many statements have been carried out. -/
  executed : Nat := 0
  released : Bool := false

namespace Queue

variable {α : Type}

/-- An empty queue. A batch holds at least one statement. -/
def ofSize (name : String) (batchSize : Nat) : Queue α := { name, batchSize := max batchSize 1 }

/-- Adds a statement and tells whether the batch is full. A released queue takes none. -/
def push (q : Queue α) (a : α) : Except StoreError (Queue α × Bool) :=
  if q.released then .error (.released q.name)
  else
    let pending := q.pending ++ [a]
    .ok ({ q with pending }, decide (q.batchSize ≤ pending.length))

def take (q : Queue α) : List α × Queue α := (q.pending, { q with pending := [] })

def recordExecuted (q : Queue α) (n : Nat) : Queue α := { q with executed := q.executed + n }

/-- Ends the queue and gives the number of statements that were discarded by that. -/
def release (q : Queue α) : Nat × Queue α :=
  if q.released then (0, q) else (q.pending.length, { q with pending := [], released := true })

end Queue

end PinLedger
