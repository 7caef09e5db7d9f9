import PinLedger.Proofs.Run.Transaction

/-!
# PinLedger.Proofs.Run.OwnWrites

The view store reads its own writes. Changes of the records wait in a queue, and come out of it when a
batch is full, before a lookup, before all records are dropped, or at a flush; whoever looks a view up
sees none of that.

* `PlainRecords` — records by id, changed at once
* `ViewCall`, `runCalls` — the calls of the view store in the order in which they are made
* `Workspace.records` — the records with all that waits carried out
* `exec_call`, `exec_runCalls` — what a call does to them, and what any number of calls does
* `reads_own_writes` — the calls of a transaction, against plain records
-/

namespace PinLedger

/-! ### Plain records -/

/-- The record of each id, if there is one. -/
abbrev PlainRecords := Int → Option ViewRecord

/-- A call of the view store. -/
inductive ViewCall where
  /-- An insert, an update or a delete, be it asked for by itself or as part of a plan. -/
  | change (statement : ViewStatement)
  | fetch (id : Int)
  | truncate
  | flush
deriving DecidableEq, Repr

namespace PlainRecords

def none : PlainRecords := fun _ => Option.none

/-- An insert adds or replaces a record, an update only replaces one. -/
def change (m : PlainRecords) : ViewStatement → PlainRecords
  | .insert r => fun id => if r.id = id then some r else m id
  | .update r => fun id => if r.id = id then (m id).map fun _ => r else m id
  | .delete gone => fun id => if gone = id then Option.none else m id

def call (m : PlainRecords) : ViewCall → PlainRecords
  | .change v => m.change v
  | .truncate => none
  | .fetch _ | .flush => m

/-- The records after some calls. -/
def after (m : PlainRecords) (calls : List ViewCall) : PlainRecords := calls.foldl call m

/-- What a call finds. -/
def finds (m : PlainRecords) : ViewCall → List (Option ViewRecord)
  | .fetch id => [m id]
  | .change _ | .truncate | .flush => []

/-- What some calls find, one after another. -/
def findsAll : PlainRecords → List ViewCall → List (Option ViewRecord)
  | _, [] => []
  | m, c :: rest => m.finds c ++ (m.call c).findsAll rest

theorem findsAll_append (m : PlainRecords) (calls later : List ViewCall) :
    m.findsAll (calls ++ later) = m.findsAll calls ++ (m.after calls).findsAll later := by
  induction calls generalizing m with
  | nil => rfl
  | cons c calls ih =>
    rw [List.cons_append, findsAll, findsAll, ih, List.append_assoc]
    rfl

end PlainRecords

theorem find?_apply (t : ViewTable) (v : ViewStatement) :
    (t.apply v).find? = PlainRecords.change t.find? v := by
  funext id
  cases v with
  | insert r => exact t.find?_put r id
  | update r =>
    rw [ViewTable.apply, ViewTable.contains, PlainRecords.change]
    by_cases hid : r.id = id
    · subst hid
      cases hr : t.find? r.id with
      | none => simp [hr]
      | some s => simp [hr]
    · cases t.find? r.id with
      | none => simp [hid]
      | some s => simp [hid]
  | delete gone =>
    refine (t.find?_erase gone id).trans ?_
    unfold PlainRecords.change
    simp only [eq_comm]

/-! ### Calls -/

/-- A call, and what it finds. -/
def ViewCall.run : ViewCall → Work (List (Option ViewRecord))
  | .change v => do
    let _ ← Work.enqueueView v
    pure []
  | .fetch id => do
    let found ← Work.fetchView id
    pure [found]
  | .truncate => do
    Work.truncate
    pure []
  | .flush => do
    let _ ← Work.flushViews
    pure []

/-- Calls one after another, and what they find. -/
def runCalls : List ViewCall → Work (List (Option ViewRecord))
  | [] => pure []
  | c :: rest => do
    let found ← c.run
    let later ← runCalls rest
    pure (found ++ later)

/-- Calls one after another and a flush. -/
def runCallsAndFlush (calls : List ViewCall) : Work (List (Option ViewRecord)) := do
  let found ← runCalls calls
  let _ ← Work.flushViews
  pure found

namespace Workspace

/-- The records with all that waits carried out. -/
def records (s : Workspace) : PlainRecords :=
  (s.views.pending.foldl ViewTable.apply s.data.views).find?

/-- Nothing but the records and what waits to change them has changed. -/
def OnlyViews (s s' : Workspace) : Prop :=
  s' = { s with data := { s.data with views := s'.data.views }, views := s'.views }

theorem OnlyViews.trans {s s₁ s₂ : Workspace} (h : s.OnlyViews s₁) (h' : s₁.OnlyViews s₂) :
    s.OnlyViews s₂ := by
  unfold OnlyViews at *
  rw [h', h]

theorem records_pushedView (s : Workspace) (v : ViewStatement) :
    (s.pushedView v).records = s.records.change v := by
  unfold records pushedView
  rw [List.foldl_append]
  exact find?_apply _ v

theorem records_flushedViews (s : Workspace) : s.flushedViews.records = s.records := rfl

theorem records_truncated (s : Workspace) : s.truncated.records = PlainRecords.none := rfl

end Workspace

/-- One call finds what plain records say, and changes them as it should. -/
theorem exec_call {s : Workspace} (ho : s.Open) (c : ViewCall) :
    ∃ s', c.run.exec s = (.ok (s.records.finds c), s') ∧ s'.Open ∧
      s'.records = s.records.call c ∧ s.OnlyViews s' := by
  obtain ⟨n, hflush⟩ := Work.exec_flushViews s
  have hflushed : s.flushedViews.Open := ⟨ho.pins, ho.views⟩
  cases c with
  | change v =>
    have hpushed : (s.pushedView v).Open := ⟨ho.pins, ho.views⟩
    have hrecords := s.records_pushedView v
    unfold ViewCall.run
    rw [Work.exec_bind, Work.exec_enqueueView ho]
    by_cases hfull : s.views.batchSize ≤ (s.views.pending ++ [v]).length
    · obtain ⟨m, hbatch⟩ := Work.exec_flushViews (s.pushedView v)
      rw [if_pos hfull, Work.exec_bind_of_ok hbatch]
      exact ⟨(s.pushedView v).flushedViews, rfl, ⟨ho.pins, ho.views⟩, hrecords, rfl⟩
    · rw [if_neg hfull]
      exact ⟨s.pushedView v, rfl, hpushed, hrecords, rfl⟩
  | fetch id =>
    rw [ViewCall.run, Work.fetchView, bind_assoc, Work.exec_bind_of_ok hflush]
    exact ⟨s.flushedViews, rfl, hflushed, s.records_flushedViews, rfl⟩
  | truncate =>
    unfold ViewCall.run
    rw [Work.exec_bind_of_ok (exec_truncate s)]
    exact ⟨s.truncated, rfl, ⟨ho.pins, ho.views⟩, s.records_truncated, rfl⟩
  | flush =>
    unfold ViewCall.run
    rw [Work.exec_bind_of_ok hflush]
    exact ⟨s.flushedViews, rfl, hflushed, s.records_flushedViews, rfl⟩

theorem exec_runCalls {s : Workspace} (ho : s.Open) (calls : List ViewCall) :
    ∃ s', (runCalls calls).exec s = (.ok (s.records.findsAll calls), s') ∧ s'.Open ∧
      s'.records = s.records.after calls ∧ s.OnlyViews s' := by
  induction calls generalizing s with
  | nil => exact ⟨s, rfl, ho, rfl, rfl⟩
  | cons c calls ih =>
    obtain ⟨s₁, hc, ho₁, hrecords, honly⟩ := exec_call ho c
    obtain ⟨s', hrest, ho', hrecords', honly'⟩ := ih ho₁
    refine ⟨s', ?_, ho', ?_, honly.trans honly'⟩
    · unfold runCalls
      rw [Work.exec_bind_of_ok hc, Work.exec_bind_of_ok hrest, hrecords]
      rfl
    · rw [hrecords', hrecords]
      rfl

/-- The calls of a transaction find what they would find in plain records on which every change
before was made at once, whatever the sizes of the batches; after a last flush the stored records are
those plain records, and nothing else has changed. What comes after a truncate finds, and leaves
behind, what it would if there had been no records and no calls before. -/
theorem reads_own_writes (s : Store) (pinBatch viewBatch : Nat) (calls : List ViewCall) :
    let records : PlainRecords := s.data.views.find?
    let done := s.transaction pinBatch viewBatch (runCallsAndFlush calls)
    done.result = .ok (records.findsAll calls) ∧
      done.store.data.views.find? = records.after calls ∧
      done.store = { s with data := { s.data with views := done.store.data.views } } ∧
      ∀ before later, calls = before ++ .truncate :: later →
        done.result = .ok (records.findsAll before ++ PlainRecords.none.findsAll later) ∧
          done.store.data.views.find? = PlainRecords.none.after later := by
  intro records done
  obtain ⟨s₁, hcalls, _, hrecords, honly⟩ :=
    exec_runCalls (Workspace.open_start s.data s.faults pinBatch viewBatch) calls
  obtain ⟨n, hflush⟩ := Work.exec_flushViews s₁
  have hexec : (runCallsAndFlush calls).exec (.start s.data s.faults pinBatch viewBatch) =
      (.ok (records.findsAll calls), s₁.flushedViews) := by
    unfold runCallsAndFlush
    rw [Work.exec_bind_of_ok hcalls, Work.exec_bind_of_ok hflush]
    rfl
  have hdone : done = _ := Store.transaction_of_exec hexec
  have hresult : done.result = .ok (records.findsAll calls) := by rw [hdone]
  have hviews : done.store.data.views.find? = records.after calls := by
    rw [hdone]
    exact hrecords
  refine ⟨hresult, hviews, ?_, ?_⟩
  · rw [hdone]
    unfold Workspace.OnlyViews at honly
    rw [honly]
    rfl
  · rintro before later rfl
    rw [hresult, hviews, PlainRecords.findsAll_append]
    refine ⟨rfl, ?_⟩
    unfold PlainRecords.after
    rw [List.foldl_append]
    rfl

end PinLedger
