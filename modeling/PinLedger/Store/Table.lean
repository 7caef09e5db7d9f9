import PinLedger.Window

/-!
# PinLedger.Store.Table

Data tables: rows of an instant and the number of views that pin it.

* `Table.ofTimes`, `Table.insertTimes` — rows that nothing pins yet
* `Table.nearest?` — the row time nearest to an instant
* `Table.shift?` — one more or one fewer pin on the rows of a range
* `Table.clear` — no pins
-/

namespace PinLedger

structure Row where
  time : Instant
  pin : Int
deriving DecidableEq, Repr

def Row.maxPin : Int := 9223372036854775807

/-- One pin more, if the count can hold it, or one pin fewer, but not below zero. -/
def Row.shift? (r : Row) (add : Bool) : Option Row :=
  if add then
    if r.pin < Row.maxPin then some { r with pin := r.pin + 1 } else none
  else if 0 < r.pin then some { r with pin := r.pin - 1 }
  else some r

/-- The rows of a table are kept in the order of their times. -/
structure Table where
  /-- The name of the temporal column. -/
  column : String
  rows : List Row
deriving DecidableEq, Repr

namespace Table

/-- The rows in the order of their times. Rows of one time keep their order. -/
def sortRows (rows : List Row) : List Row := rows.mergeSort fun a b => decide (a.time ≤ b.time)

def ofTimes (column : String) (times : List Instant) : Table :=
  ⟨column, sortRows (times.map (⟨·, 0⟩))⟩

/-- Adds rows that nothing pins yet. -/
def insertTimes (t : Table) (times : List Instant) : Table :=
  { t with rows := sortRows (t.rows ++ times.map (⟨·, 0⟩)) }

/-- `a` is at least as near to the target as `b`. Of two at the same distance the earlier one is
nearer. -/
def nearer (target a b : Instant) : Bool :=
  a.distance target < b.distance target ∨ (a.distance target = b.distance target ∧ a ≤ b)

/-- The one of some instants that is nearest to the target. -/
def nearestOf (target : Instant) : List Instant → Option Instant
  | [] => none
  | t :: ts =>
    match nearestOf target ts with
    | none => some t
    | some s => if nearer target t s then some t else some s

def nearest? (t : Table) (target : Instant) : Option Instant :=
  nearestOf target (t.rows.map (·.time))

/-- One pin more or fewer on every row of a range. -/
def shift? (t : Table) (range : TimeRange) (add : Bool) : Option Table := do
  let rows ← t.rows.mapM fun r => if r.time ∈ range then r.shift? add else some r
  some { t with rows }

def clear (t : Table) : Table := { t with rows := t.rows.map fun r => { r with pin := 0 } }

/-- The pins of the first row with this time. -/
def pinAt? (t : Table) (time : Instant) : Option Int :=
  (t.rows.find? (·.time = time)).map (·.pin)

/-- Sets the pins of the first row with this time. -/
def setPin (t : Table) (time : Instant) (pin : Int) : Table :=
  { t with rows := set t.rows }
where
  set : List Row → List Row
    | [] => []
    | r :: rest => if r.time = time then { r with pin } :: rest else r :: set rest

end Table

end PinLedger
