import PinLedger.Proofs.Store.Batcher

/-!
# PinLedger.Proofs.Store.Delivery

A batcher delivers each statement once and in order. The store is handed the statements in the order
in which they were queued, none of them twice, not even if their batch has failed; what has not been
handed over waits, until a release discards it.

* `OnData`, `onData_executePins` — a batch meets nothing but the data and the told failures
* `PinStore.ofTransaction` — the store of a transaction
* `exec_run` — a call in a transaction is a call of the batcher over that store
* `delivered_in_order` — what the calls of a batcher deliver
-/

namespace PinLedger

/-! ### The store of a transaction -/

/-- Work that sees and changes nothing but the data and the told failures. -/
def OnData {α : Type} (x : Work α) : Prop :=
  ∀ s t : Workspace, t.data = s.data → t.faults = s.faults →
    x.exec s = ((x.exec t).1, { s with data := (x.exec t).2.data, faults := (x.exec t).2.faults })

namespace OnData

variable {α β : Type}

theorem pure (a : α) : OnData (Pure.pure a) := by
  intro s t hdata hfaults
  rw [Work.exec_pure, Work.exec_pure, hdata, hfaults]

theorem bind {x : Work α} {f : α → Work β} (hx : OnData x) (hf : ∀ a, OnData (f a)) :
    OnData (x >>= f) := by
  intro s t hdata hfaults
  rw [Work.exec_bind, Work.exec_bind, hx s t hdata hfaults]
  rcases x.exec t with ⟨r, t₁⟩
  cases r with
  | error e => rfl
  | ok a => exact hf a _ t₁ rfl rfl

theorem forM {x : α → Work PUnit} (hx : ∀ a, OnData (x a)) (l : List α) : OnData (l.forM x) := by
  induction l with
  | nil => exact pure PUnit.unit
  | cons a l ih => exact (hx a).bind fun _ => ih

end OnData

theorem onData_checkFault : OnData Work.checkFault := by
  rintro ⟨data, ⟨left, unreachable⟩, pins, views, warnings⟩ t hdata hfaults
  obtain ⟨data', faults', pins', views', warnings'⟩ := t
  cases hdata
  cases hfaults
  cases left with
  | none => rfl
  | some n =>
    cases n with
    | zero => rfl
    | succ n => rfl

theorem onData_executePin (p : PinStatement) : OnData (Work.executePin p) := by
  rintro ⟨data, faults, pins, views, warnings⟩ t hdata hfaults
  obtain ⟨data', faults', pins', views', warnings'⟩ := t
  cases hdata
  cases hfaults
  rw [Work.exec_executePin, Work.exec_executePin]
  dsimp only
  cases data.applyPin p with
  | error a => rfl
  | ok d => rfl

/-- A batch meets neither the queues nor the warnings. -/
theorem onData_executePins (batch : List PinStatement) : OnData (Work.executePins batch) :=
  onData_checkFault.bind fun _ =>
    (OnData.forM onData_executePin batch).bind fun _ => OnData.pure batch.length

theorem eq_length_of_executePins {batch : List PinStatement} {s : Workspace} {n : Nat}
    (h : ((Work.executePins batch).exec s).1 = .ok n) : n = batch.length := by
  rcases hexec : (Work.executePins batch).exec s with ⟨r, s'⟩
  rw [hexec] at h
  cases h
  obtain ⟨_, s₁, _, hrest⟩ := Work.exec_bind_ok hexec
  obtain ⟨_, s₂, _, hlast⟩ := Work.exec_bind_ok hrest
  rw [Work.exec_pure] at hlast
  cases hlast
  rfl

/-- The store of a transaction: its data, and the failures that it was told to have. -/
def PinStore.ofTransaction : PinStore where
  State := StoreData × Faults
  execute batch s :=
    let done := (Work.executePins batch).exec (.start s.1 s.2 1 1)
    (done.1, done.2.data, done.2.faults)
  eq_length_of_ok := fun _ _ _ h => eq_length_of_executePins h

/-! ### Calls in a transaction -/

/-- The call, made in a transaction. -/
def PinCall.run : PinCall → Work Unit
  | .enqueue p => do
    let _ ← Work.enqueuePin p
    pure ()
  | .flush => do
    let _ ← Work.flushPins
    pure ()
  | .release => Work.releasePins

/-- What a call warns of. -/
def PinCall.warnings (queue : Queue PinStatement) : PinCall → List Warning
  | .release => Work.discardWarning queue.name queue.release.1
  | .enqueue _ | .flush => []

namespace Workspace

/-- The pin batcher of a transaction, with notes of what the store has been handed. -/
def batcher (s : Workspace) (notes : List Handover) : Batcher PinStore.ofTransaction.noting :=
  ⟨s.pins, (s.data, s.faults), notes⟩

/-- The workspace with the batcher and the store as they are in `b`. -/
def withBatcher (s : Workspace) (b : Batcher PinStore.ofTransaction.noting) : Workspace :=
  { s with pins := b.queue, data := b.state.1.1, faults := b.state.1.2 }

end Workspace

theorem exec_run_flush (s : Workspace) (notes : List Handover) :
    PinCall.flush.run.exec s =
      ((s.batcher notes).flush.1, s.withBatcher (s.batcher notes).flush.2) := by
  show (Work.flushPins >>= fun _ => pure ()).exec s = _
  cases hp : s.pins.pending with
  | nil =>
    have hpending : (s.batcher notes).queue.pending = [] := hp
    rw [Work.exec_bind, Work.exec_flushPins_of_nil hp, Batcher.flush_of_nil hpending]
    rfl
  | cons p l =>
    have hpending : (s.batcher notes).queue.pending = p :: l := hp
    -- the batch does here what it does in a fresh workspace with this data and these failures
    have hbatch := onData_executePins (p :: l) { s with pins := { s.pins with pending := [] } }
      (.start s.data s.faults 1 1) rfl rfl
    rw [Work.exec_bind, Work.exec_flushPins_of_cons hp, Work.exec_bind, hbatch,
      Batcher.flush_of_cons hpending]
    simp only [Workspace.batcher, PinStore.noting, PinStore.ofTransaction]
    rcases (Work.executePins (p :: l)).exec (.start s.data s.faults 1 1) with ⟨r, w⟩
    cases r with
    | ok n => rfl
    | error a => rfl

theorem exec_run_enqueue (p : PinStatement) (s : Workspace) (notes : List Handover) :
    (PinCall.enqueue p).run.exec s =
      (((s.batcher notes).enqueue p).1, s.withBatcher ((s.batcher notes).enqueue p).2) := by
  show (Work.enqueuePin p >>= fun _ => pure ()).exec s = _
  have hqueue : (s.batcher notes).queue = s.pins := rfl
  unfold Work.enqueuePin Batcher.enqueue
  rw [bind_assoc, Work.exec_get_bind, hqueue]
  cases s.pins.push p with
  | error e => rfl
  | ok r =>
    obtain ⟨queue, full⟩ := r
    dsimp only
    rw [bind_assoc, Work.exec_modify_bind]
    cases full with
    | false => rfl
    | true =>
      simp only [if_true, bind_assoc, pure_bind]
      exact exec_run_flush { s with pins := queue } notes

/-- A call in a transaction is a call of the batcher over the store of the transaction. Nothing else
in the workspace changes, but for a warning. -/
theorem exec_run (c : PinCall) (s : Workspace) (notes : List Handover) :
    c.run.exec s = (((s.batcher notes).call c).1,
      { s.withBatcher ((s.batcher notes).call c).2 with
        warnings := s.warnings ++ c.warnings s.pins }) := by
  cases c with
  | enqueue p =>
    rw [exec_run_enqueue p s notes, PinCall.warnings, List.append_nil]
    rfl
  | flush =>
    rw [exec_run_flush s notes, PinCall.warnings, List.append_nil]
    rfl
  | release => rfl

/-! ### Delivery -/

/-- What a batcher delivers, whichever batches the store lets fail. The statements that the store has
been handed, and behind them those that wait, are the statements that were queued before the first
release, in their order and less those that the release discarded. What is handed over later was
waiting or is queued later, so that no batch is handed over again, not even one that has failed. The
statements of the batches that have succeeded are counted, and less than a batch waits between the
calls. After a release nothing waits, the store stays as it is and every statement is refused. The
calls in a transaction are these calls over the store of the transaction. -/
theorem delivered_in_order (store : PinStore) (state : store.State) (batchSize : Nat) :
    let start : Batcher store.noting := .fresh batchSize (state, [])
    (∀ calls, Handover.statements (start.after calls).handed ++ start.discarded calls ++
      (start.after calls).queue.pending = PinCall.accepted calls) ∧
    (∀ before later, ∃ more,
      (start.after (before ++ later)).handed = (start.after before).handed ++ more ∧
        Handover.statements more <+: (start.after before).queue.pending ++ PinCall.accepted later) ∧
    (∀ calls, (start.after calls).queue.executed = Handover.carriedOut (start.after calls).handed ∧
      (start.after calls).queue.pending.length < max batchSize 1) ∧
    (∀ before later,
      let b := start.after (before ++ .release :: later)
      b.queue.pending = [] ∧ b.state = (start.after before).state ∧
        ∀ p, b.call (.enqueue p) = (.error (.error (.released "pin batcher")), b)) ∧
    (StoreError.released "pin batcher").kind = .internal ∧
    ∀ (c : PinCall) (s : Workspace) (notes : List Handover),
      c.run.exec s = (((s.batcher notes).call c).1,
        { s.withBatcher ((s.batcher notes).call c).2 with
          warnings := s.warnings ++ c.warnings s.pins }) := by
  intro start
  have hsound : start.Sound "pin batcher" (max batchSize 1) := Batcher.sound_fresh batchSize _
  refine ⟨?_, ?_, ?_, ?_, rfl, exec_run⟩
  · intro calls
    obtain ⟨more, hmore⟩ := Batcher.advances_after hsound rfl calls
    have hhanded : (start.after calls).handed = more := hmore.handed
    rw [hhanded]
    exact hmore.waits
  · intro before later
    -- the calls go on from where the first ones have come to, unless there was a release in these
    rw [Batcher.after_append]
    have hbefore := Batcher.sound_after hsound before
    cases hr : (start.after before).queue.released with
    | true =>
      rw [Batcher.after_of_spent hr (hbefore.spent hr)]
      exact ⟨[], by simp, List.nil_prefix⟩
    | false =>
      obtain ⟨more, hmore⟩ := Batcher.advances_after hbefore hr later
      refine ⟨more, hmore.handed, ?_⟩
      rw [← hmore.waits, List.append_assoc]
      exact List.prefix_append _ _
  · intro calls
    obtain ⟨more, hmore⟩ := Batcher.advances_after hsound rfl calls
    have hhanded : (start.after calls).handed = more := hmore.handed
    refine ⟨?_, (Batcher.sound_after hsound calls).room⟩
    rw [hhanded, hmore.executed]
    exact Nat.zero_add _
  · intro before later b
    have hbefore := Batcher.sound_after hsound before
    obtain ⟨hreleased, hpending⟩ := Batcher.spent_release hbefore
    have hb : b = (start.after before).release := by
      rw [← Batcher.after_release hbefore later]
      exact Batcher.after_append start before _
    rw [hb]
    refine ⟨hpending, rfl, ?_⟩
    intro p
    have hname := (Batcher.sound_release hbefore).name_eq
    rw [← hname]
    exact Batcher.enqueue_of_released hreleased p

/-- A store that is told to fail the first batch is not handed it again; what comes after it is
carried out, and what waits at the release is discarded. -/
example :
    let data : StoreData :=
      { tables := (Dict.empty.insert "sky" ⟨"time", []⟩).insert "sea" ⟨"time", []⟩ }
    let start : Batcher PinStore.ofTransaction.noting :=
      .fresh 2 ((data, { batchesLeft := some 0 }), [])
    let b := start.after [.enqueue (.reset "sky"), .enqueue (.reset "sea"), .enqueue (.reset "sky"),
      .flush, .enqueue (.reset "sea"), .release, .enqueue (.reset "sky"), .flush]
    b.handed = [⟨[.reset "sky", .reset "sea"], false⟩, ⟨[.reset "sky"], true⟩] ∧
      b.queue.executed = 1 ∧ b.queue.pending = [] := by
  decide

end PinLedger
