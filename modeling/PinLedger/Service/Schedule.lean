import PinLedger.Service.Worker

/-!
# PinLedger.Service.Schedule

Periodic runs. A loop asks for a run at every multiple of its interval, counted in seconds from the
start; a run that is refused then is left out.

* `Schedule.loops` — the loops that a schedule asks for
* `Schedule.due` — what is due in a span of time
* `Engine.advance` — the runs of a span of time
-/

namespace PinLedger

/-- The intervals of periodic runs in seconds. -/
structure Schedule where
  incremental : Option Nat := none
  reset : Option Nat := none
deriving DecidableEq, Repr

/-- A loop that asks for runs. -/
structure Loop where
  kind : TaskKind
  interval : Nat
deriving DecidableEq, Repr

namespace Schedule

/-- No interval, or none of zero length, means no loop. -/
def loops (s : Schedule) : List Loop :=
  let loop (kind : TaskKind) (interval : Option Nat) : List Loop :=
    (interval.filter (0 < ·)).toList.map (⟨kind, ·⟩)
  loop .incremental s.incremental ++ loop .reset s.reset

end Schedule

/-- How many intervals of a loop begin before `t`. -/
def Loop.begun (l : Loop) (t : Nat) : Nat := (t + l.interval - 1) / l.interval

/-- The moments from `t` to before `u` at which a loop asks. It does not ask at its very start. -/
def Loop.moments (t u : Nat) (l : Loop) : List (Nat × TaskKind) :=
  let first := max 1 (l.begun t)
  (List.range (l.begun u - first)).map fun i => ((first + i) * l.interval, l.kind)

namespace Schedule

/-- What is due from `t` to before `u`, in the order of time. Of two loops that ask at the same
moment the one that began first comes first. -/
def due (s : Schedule) (t u : Nat) : List TaskKind :=
  ((s.loops.flatMap (Loop.moments t u)).mergeSort fun a b => a.1 ≤ b.1).map (·.2)

end Schedule

/-- Asks for runs one after another and does each. -/
def Engine.runDue (e : Engine) (kinds : List TaskKind) : Engine :=
  kinds.foldl (fun e kind => (e.start kind).2.settle) e

/-- The runs of a schedule from `t` to before `u`. What waits is done first. -/
def Engine.advance (e : Engine) (s : Schedule) (t u : Nat) : Engine :=
  e.settle.runDue (s.due t u)

end PinLedger
