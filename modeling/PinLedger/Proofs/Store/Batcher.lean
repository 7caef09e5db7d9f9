import PinLedger.Proofs.Store.Batches

/-!
# PinLedger.Proofs.Store.Batcher

The pin batcher over any store. Its calls are those of a transaction, with the store as a parameter.
A full batch, a flush and a release each take all that waits out of the queue, and only the first two
hand it to the store; nothing comes back into the queue when the store fails.

* `PinStore`, `PinStore.noting` — a store, and a store that notes what it is handed
* `PinCall`, `Batcher.call`, `Batcher.after` — the calls of a batcher, alone and in a row
* `Batcher.Advances` — what the store has been handed between two states of a batcher
* `Batcher.advances_flush`, `Batcher.advances_enqueue`, `Batcher.advances_after` — what single calls
  hand over, and what any number of calls does
* `Batcher.Sound`, `Batcher.sound_after` — what holds of the queue between the calls
* `Batcher.after_of_spent` — a batcher that has been released never changes again
-/

namespace PinLedger

/-! ### Stores -/

/-- A store, as a batcher meets it: it is handed a batch, and carries it out or fails. -/
structure PinStore where
  State : Type
  /-- The store changes in either case. It tells how many statements it has carried out. -/
  execute : List PinStatement → State → Except Abort Nat × State
  /-- A batch that succeeds is carried out as a whole. -/
  eq_length_of_ok : ∀ batch s n, (execute batch s).1 = .ok n → n = batch.length

/-- A batch that a store has been handed, and whether it has succeeded. -/
structure Handover where
  batch : List PinStatement
  succeeded : Bool
deriving DecidableEq, Repr

namespace Handover

/-- The statements of some batches. -/
def statements (l : List Handover) : List PinStatement := l.flatMap (·.batch)

/-- How many statements the batches hold that have succeeded. -/
def carriedOut (l : List Handover) : Nat := (statements (l.filter (·.succeeded))).length

@[simp] theorem statements_nil : statements [] = [] := rfl

@[simp] theorem statements_singleton (h : Handover) : statements [h] = h.batch := by
  simp [statements]

@[simp] theorem statements_append (l l' : List Handover) :
    statements (l ++ l') = statements l ++ statements l' := by
  simp [statements]

@[simp] theorem carriedOut_nil : carriedOut [] = 0 := rfl

@[simp] theorem carriedOut_singleton (h : Handover) :
    carriedOut [h] = if h.succeeded then h.batch.length else 0 := by
  cases hs : h.succeeded <;> simp [carriedOut, hs]

@[simp] theorem carriedOut_append (l l' : List Handover) :
    carriedOut (l ++ l') = carriedOut l + carriedOut l' := by
  simp [carriedOut]

end Handover

/-- The store, and a note of the batches that it has been handed, oldest first. -/
def PinStore.noting (store : PinStore) : PinStore where
  State := store.State × List Handover
  execute batch s :=
    ((store.execute batch s.1).1, (store.execute batch s.1).2,
      s.2 ++ [⟨batch, (store.execute batch s.1).1.isOk⟩])
  eq_length_of_ok := fun batch s n h => store.eq_length_of_ok batch s.1 n h

/-! ### Calls -/

/-- A call of the pin batcher. -/
inductive PinCall where
  | enqueue (statement : PinStatement)
  | flush
  | release
deriving DecidableEq, Repr

/-- The statements that are queued before the first release. -/
def PinCall.accepted : List PinCall → List PinStatement
  | [] => []
  | .enqueue p :: calls => p :: accepted calls
  | .flush :: calls => accepted calls
  | .release :: _ => []

/-- A batcher, and the store that it hands its batches to. -/
structure Batcher (store : PinStore) where
  queue : Queue PinStatement
  state : store.State

namespace Batcher

open Handover

variable {store : PinStore}

def fresh (batchSize : Nat) (state : store.State) : Batcher store :=
  ⟨.ofSize "pin batcher" batchSize, state⟩

/-- Hands all that waits to the store as one batch. It is not kept if the batch fails. -/
def flush (b : Batcher store) : Except Abort Unit × Batcher store :=
  let (batch, queue) := b.queue.take
  if batch.isEmpty then (.ok (), { b with queue })
  else
    match store.execute batch b.state with
    | (.ok n, state) => (.ok (), ⟨queue.recordExecuted n, state⟩)
    | (.error a, state) => (.error a, ⟨queue, state⟩)

/-- Queues a statement and flushes a full batch. -/
def enqueue (b : Batcher store) (p : PinStatement) : Except Abort Unit × Batcher store :=
  match b.queue.push p with
  | .error e => (.error (.error e), b)
  | .ok (queue, full) => if full then flush { b with queue } else (.ok (), { b with queue })

def release (b : Batcher store) : Batcher store := { b with queue := b.queue.release.2 }

/-- The outcome of a call, and what it leaves behind, also when it fails. -/
def call (b : Batcher store) : PinCall → Except Abort Unit × Batcher store
  | .enqueue p => b.enqueue p
  | .flush => b.flush
  | .release => (.ok (), b.release)

/-- The batcher after some calls; the calls go on when one has failed. -/
def after (b : Batcher store) (calls : List PinCall) : Batcher store :=
  calls.foldl (fun b c => (b.call c).2) b

/-- The statements that wait when the first release comes. -/
def discarded (b : Batcher store) : List PinCall → List PinStatement
  | [] => []
  | .enqueue p :: calls => (b.call (.enqueue p)).2.discarded calls
  | .flush :: calls => (b.call .flush).2.discarded calls
  | .release :: _ => b.queue.pending

theorem after_append (b : Batcher store) (calls later : List PinCall) :
    b.after (calls ++ later) = (b.after calls).after later :=
  List.foldl_append

/-- The batches that the store has been handed, oldest first. -/
def handed (b : Batcher store.noting) : List Handover := b.state.2

/-! ### What a call comes to -/

theorem flush_of_nil {b : Batcher store} (h : b.queue.pending = []) : b.flush = (.ok (), b) := by
  obtain ⟨⟨name, size, pending, executed, released⟩, state⟩ := b
  cases h
  rfl

theorem flush_of_cons {b : Batcher store} {p : PinStatement} {l : List PinStatement}
    (h : b.queue.pending = p :: l) :
    b.flush =
      match store.execute (p :: l) b.state with
      | (.ok n, state) =>
        (.ok (), ⟨{ b.queue with pending := [], executed := b.queue.executed + n }, state⟩)
      | (.error a, state) => (.error a, ⟨{ b.queue with pending := [] }, state⟩) := by
  obtain ⟨⟨name, size, pending, executed, released⟩, state⟩ := b
  cases h
  rfl

/-- The batcher with one more waiting statement. -/
def pushed (b : Batcher store) (p : PinStatement) : Batcher store :=
  { b with queue := { b.queue with pending := b.queue.pending ++ [p] } }

theorem enqueue_of_released {b : Batcher store} (h : b.queue.released = true) (p : PinStatement) :
    b.enqueue p = (.error (.error (.released b.queue.name)), b) := by
  unfold enqueue Queue.push
  rw [if_pos h]

theorem enqueue_of_open {b : Batcher store} (h : b.queue.released = false) (p : PinStatement) :
    b.enqueue p =
      if b.queue.batchSize ≤ b.queue.pending.length + 1 then (b.pushed p).flush
      else (.ok (), b.pushed p) := by
  unfold enqueue Queue.push
  rw [if_neg (by simp [h])]
  simp only [decide_eq_true_eq, List.length_append, List.length_singleton]
  rfl

/-- A statement is refused, goes to the store with all others that wait, or waits. -/
theorem enqueue_cases (b : Batcher store) (p : PinStatement) :
    (b.queue.released = true ∧ b.enqueue p = (.error (.error (.released b.queue.name)), b)) ∨
    (b.queue.released = false ∧ b.queue.batchSize ≤ b.queue.pending.length + 1 ∧
      b.enqueue p = (b.pushed p).flush) ∨
    (b.queue.released = false ∧ b.queue.pending.length + 1 < b.queue.batchSize ∧
      b.enqueue p = (.ok (), b.pushed p)) := by
  cases hr : b.queue.released with
  | true => exact .inl ⟨rfl, enqueue_of_released hr p⟩
  | false =>
    rw [enqueue_of_open hr]
    split
    case isTrue hfull => exact .inr (.inl ⟨rfl, hfull, rfl⟩)
    case isFalse hroom => exact .inr (.inr ⟨rfl, Nat.lt_of_not_le hroom, rfl⟩)

/-- A flush leaves nothing waiting, whether the store fails or not. -/
theorem queue_flush (b : Batcher store) :
    b.flush.2.queue = { b.queue with pending := [], executed := b.flush.2.queue.executed } := by
  cases hp : b.queue.pending with
  | nil => rw [flush_of_nil hp, ← hp]
  | cons p l =>
    rw [flush_of_cons hp]
    rcases store.execute (p :: l) b.state with ⟨outcome, state⟩
    cases outcome with
    | ok n => rfl
    | error a => rfl

theorem release_of_released {b : Batcher store} (h : b.queue.released = true) : b.release = b := by
  unfold release Queue.release
  rw [if_pos h]

theorem release_of_open {b : Batcher store} (h : b.queue.released = false) :
    b.release = { b with queue := { b.queue with pending := [], released := true } } := by
  unfold release Queue.release
  rw [if_neg (by simp [h])]

/-! ### What is handed over -/

/-- Between two states of a batcher the store has been handed the batches `more`. They hold the
first of the statements that waited before and of the `new` ones; of the others, those behind the
`lost` ones still wait. -/
structure Advances (b b' : Batcher store.noting) (new lost : List PinStatement)
    (more : List Handover) : Prop where
  handed : b'.handed = b.handed ++ more
  waits : statements more ++ lost ++ b'.queue.pending = b.queue.pending ++ new
  executed : b'.queue.executed = b.queue.executed + carriedOut more

namespace Advances

variable {b b₁ b₂ : Batcher store.noting} {new new' lost : List PinStatement}
  {more more' : List Handover}

theorem refl (b : Batcher store.noting) : b.Advances b [] [] [] where
  handed := by simp
  waits := by simp
  executed := by simp

/-- One part after the other, if nothing is lost in the first: what is lost stands between what was
handed over and what still waits. -/
theorem trans (h : b.Advances b₁ new [] more) (h' : b₁.Advances b₂ new' lost more') :
    b.Advances b₂ (new ++ new') lost (more ++ more') where
  handed := by rw [h'.handed, h.handed, List.append_assoc]
  -- what waits after the first part is what the second part begins with
  waits := by
    have hfirst : statements more ++ b₁.queue.pending = b.queue.pending ++ new := by
      simpa using h.waits
    calc statements (more ++ more') ++ lost ++ b₂.queue.pending
        = statements more ++ (statements more' ++ lost ++ b₂.queue.pending) := by simp
      _ = statements more ++ b₁.queue.pending ++ new' := by rw [h'.waits, List.append_assoc]
      _ = b.queue.pending ++ (new ++ new') := by rw [hfirst, List.append_assoc]
  executed := by
    rw [h'.executed, h.executed, carriedOut_append]
    omega

end Advances

theorem advances_pushed (b : Batcher store.noting) (p : PinStatement) :
    b.Advances (b.pushed p) [p] [] [] where
  handed := by simp [handed, pushed]
  waits := by simp [pushed]
  executed := by simp [pushed]

/-- A flush hands all that waits to the store, once, whether the store fails or not. -/
theorem advances_flush (b : Batcher store.noting) : ∃ more, b.Advances b.flush.2 [] [] more := by
  cases hp : b.queue.pending with
  | nil =>
    rw [flush_of_nil hp]
    exact ⟨[], Advances.refl b⟩
  | cons p l =>
    rcases hexec : store.execute (p :: l) b.state.1 with ⟨outcome, state⟩
    have hnoted : store.noting.execute (p :: l) b.state =
        (outcome, state, b.handed ++ [⟨p :: l, outcome.isOk⟩]) := by
      simp [PinStore.noting, handed, hexec]
    rw [flush_of_cons hp, hnoted]
    refine ⟨[⟨p :: l, outcome.isOk⟩], ?_⟩
    cases outcome with
    | ok n =>
      have hn : n = (p :: l).length := store.eq_length_of_ok (p :: l) b.state.1 n (by rw [hexec])
      exact ⟨rfl, by simp [hp], by simp [hn, Except.isOk, Except.toBool]⟩
    | error a => exact ⟨rfl, by simp [hp], by simp [Except.isOk, Except.toBool]⟩

/-- The store is handed the statement and all that wait with it, if they make a batch. -/
theorem advances_enqueue {b : Batcher store.noting} (h : b.queue.released = false)
    (p : PinStatement) : ∃ more, b.Advances (b.enqueue p).2 [p] [] more := by
  rcases b.enqueue_cases p with ⟨hreleased, _⟩ | ⟨_, _, heq⟩ | ⟨_, _, heq⟩
  · rw [h] at hreleased
    cases hreleased
  · obtain ⟨more, hflush⟩ := (b.pushed p).advances_flush
    rw [heq]
    exact ⟨more, (b.advances_pushed p).trans hflush⟩
  · rw [heq]
    exact ⟨[], b.advances_pushed p⟩

theorem advances_release {b : Batcher store.noting} (h : b.queue.released = false) :
    b.Advances b.release [] b.queue.pending [] := by
  rw [release_of_open h]
  exact ⟨by simp [handed], by simp, by simp⟩

/-! ### Between the calls -/

/-- Less than a batch waits, and nothing at all after a release. -/
structure Sound (name : String) (size : Nat) (b : Batcher store) : Prop where
  name_eq : b.queue.name = name
  size_eq : b.queue.batchSize = size
  room : b.queue.pending.length < size
  spent : b.queue.released = true → b.queue.pending = []

variable {name : String} {size : Nat} {b : Batcher store}

theorem sound_fresh (batchSize : Nat) (state : store.State) :
    (fresh batchSize state).Sound "pin batcher" (max batchSize 1) where
  name_eq := rfl
  size_eq := rfl
  room := Nat.lt_of_lt_of_le Nat.zero_lt_one (Nat.le_max_right batchSize 1)
  spent := by
    intro h
    cases h

theorem sound_flush (hname : b.queue.name = name) (hsize : b.queue.batchSize = size)
    (hpos : 0 < size) : b.flush.2.Sound name size := by
  constructor
  · rw [queue_flush]
    exact hname
  · rw [queue_flush]
    exact hsize
  · rw [queue_flush]
    exact hpos
  · intro _
    rw [queue_flush]

theorem sound_enqueue (h : b.Sound name size) (p : PinStatement) :
    (b.enqueue p).2.Sound name size := by
  rcases b.enqueue_cases p with ⟨_, heq⟩ | ⟨_, _, heq⟩ | ⟨hopen, hroom, heq⟩
  · rw [heq]
    exact h
  · rw [heq]
    exact sound_flush h.name_eq h.size_eq (Nat.zero_lt_of_lt h.room)
  · rw [heq]
    have hsize : b.queue.batchSize = size := h.size_eq
    refine ⟨h.name_eq, hsize, ?_, ?_⟩
    · simp only [pushed, List.length_append, List.length_singleton]
      omega
    · intro hreleased
      simp [pushed, hopen] at hreleased

theorem sound_release (h : b.Sound name size) : b.release.Sound name size := by
  cases hr : b.queue.released with
  | true =>
    rw [release_of_released hr]
    exact h
  | false =>
    rw [release_of_open hr]
    exact ⟨h.name_eq, h.size_eq, Nat.zero_lt_of_lt h.room, fun _ => rfl⟩

theorem sound_call (h : b.Sound name size) (c : PinCall) : (b.call c).2.Sound name size := by
  cases c with
  | enqueue p => exact sound_enqueue h p
  | flush => exact sound_flush h.name_eq h.size_eq (Nat.zero_lt_of_lt h.room)
  | release => exact sound_release h

theorem sound_after (h : b.Sound name size) (calls : List PinCall) :
    (b.after calls).Sound name size := by
  induction calls generalizing b with
  | nil => exact h
  | cons c calls ih => exact ih (sound_call h c)

theorem released_enqueue (b : Batcher store) (p : PinStatement) :
    (b.enqueue p).2.queue.released = b.queue.released := by
  rcases b.enqueue_cases p with ⟨_, heq⟩ | ⟨_, _, heq⟩ | ⟨_, _, heq⟩
  · rw [heq]
  · rw [heq, queue_flush]
    rfl
  · rw [heq]
    rfl

theorem call_of_spent (hreleased : b.queue.released = true) (hpending : b.queue.pending = [])
    (c : PinCall) : (b.call c).2 = b := by
  cases c with
  | enqueue p =>
    show (b.enqueue p).2 = b
    rw [enqueue_of_released hreleased]
  | flush =>
    show b.flush.2 = b
    rw [flush_of_nil hpending]
  | release => exact release_of_released hreleased

/-- A batcher that has been released never changes again. -/
theorem after_of_spent (hreleased : b.queue.released = true) (hpending : b.queue.pending = [])
    (calls : List PinCall) : b.after calls = b := by
  induction calls with
  | nil => rfl
  | cons c calls ih =>
    show (b.call c).2.after calls = b
    rw [call_of_spent hreleased hpending]
    exact ih

theorem spent_release (h : b.Sound name size) :
    b.release.queue.released = true ∧ b.release.queue.pending = [] := by
  cases hr : b.queue.released with
  | true =>
    rw [release_of_released hr]
    exact ⟨hr, h.spent hr⟩
  | false =>
    rw [release_of_open hr]
    exact ⟨rfl, rfl⟩

theorem after_release (h : b.Sound name size) (calls : List PinCall) :
    b.after (.release :: calls) = b.release :=
  after_of_spent (spent_release h).1 (spent_release h).2 calls

/-- What any calls hand over, in their order: the batches of the calls before the first release. -/
theorem advances_after {b : Batcher store.noting} (h : b.Sound name size)
    (hopen : b.queue.released = false) (calls : List PinCall) :
    ∃ more, b.Advances (b.after calls) (PinCall.accepted calls) (b.discarded calls) more := by
  induction calls generalizing b with
  | nil => exact ⟨[], Advances.refl b⟩
  | cons c calls ih =>
    have hcall := sound_call h c
    cases c with
    | enqueue p =>
      obtain ⟨more, hfirst⟩ := advances_enqueue hopen p
      obtain ⟨later, hrest⟩ := ih hcall ((b.released_enqueue p).trans hopen)
      exact ⟨more ++ later, hfirst.trans hrest⟩
    | flush =>
      have hstill : b.flush.2.queue.released = false := by
        rw [queue_flush]
        exact hopen
      obtain ⟨more, hfirst⟩ := b.advances_flush
      obtain ⟨later, hrest⟩ := ih hcall hstill
      exact ⟨more ++ later, hfirst.trans hrest⟩
    | release =>
      -- the calls behind a release change nothing and are accepted by nobody
      rw [after_release h calls]
      exact ⟨[], advances_release hopen⟩

end Batcher

end PinLedger
