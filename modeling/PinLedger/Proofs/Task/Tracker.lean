import Mathlib.Data.List.Basic
import Mathlib.Data.List.Induction
import PinLedger.Task.Tracker

/-!
# PinLedger.Proofs.Task.Tracker

Any sequence of begins and finishes. A finish may name any task, one of long ago or one that was
never begun, and a task may be finished twice. The state of the tracker always has one of four
shapes, and nothing but a finish of the latest begin changes it between two begins.

* `TaskCall`, `Tracker.after` — the calls, and the tracker after them
* `TaskState.WellFormed` — the four shapes
* `LatestBegin` — the id that the latest begin gave, and the calls since
* `Tracker.Follows` — the invariant, with one lemma for each kind of call
* `Tracker.lifecycle` — what holds after any calls
-/

namespace PinLedger

inductive TaskCall where
  | begin (kind : TaskKind)
  | complete (id : TaskId) (summary : RunSummary)
  | fail (id : TaskId) (failure : String)

/-- The task that a call finishes, whether or not there is such a task. -/
def TaskCall.finishes? : TaskCall → Option TaskId
  | .begin _ => none
  | .complete id _ => some id
  | .fail id _ => some id

/-- What may be known of a task: nothing, that it runs, or how it ended. -/
inductive TaskState.WellFormed : TaskState → Prop
  | idle : WellFormed .idle
  | running (id : TaskId) (kind : TaskKind) (startedAt : Stamp) :
      WellFormed {
        taskId := some id, kind := some kind, status := .running, startedAt := some startedAt }
  | completed (id : TaskId) (kind : TaskKind) (startedAt finishedAt : Stamp)
      (summary : RunSummary) :
      WellFormed {
        taskId := some id, kind := some kind, status := .completed, startedAt := some startedAt
        finishedAt := some finishedAt, summary := some summary }
  | failed (id : TaskId) (kind : TaskKind) (startedAt finishedAt : Stamp) (failure : String) :
      WellFormed {
        taskId := some id, kind := some kind, status := .failed, startedAt := some startedAt
        finishedAt := some finishedAt, failure := some failure }

/-- What a finish writes. -/
inductive TaskEnd : TaskStatus → Option String → Option RunSummary → Prop
  | completed (summary : RunSummary) : TaskEnd .completed none (some summary)
  | failed (failure : String) : TaskEnd .failed (some failure) none

namespace Tracker

variable {t : Tracker} {id : TaskId} {c : TaskCall}
variable {status : TaskStatus} {failure : Option String} {summary : Option RunSummary}

/-! ### The calls -/

def call (t : Tracker) : TaskCall → Tracker
  | .begin kind => (t.begin kind).2
  | .complete id summary => (t.complete id summary).1
  | .fail id failure => (t.fail id failure).1

def after (t : Tracker) (calls : List TaskCall) : Tracker := calls.foldl call t

theorem after_concat (t : Tracker) (calls : List TaskCall) (c : TaskCall) :
    t.after (calls ++ [c]) = (t.after calls).call c := by
  simp [after]

theorem finish_of_other (h : t.state.taskId ≠ some id) (status : TaskStatus)
    (failure : Option String) (summary : Option RunSummary) :
    (t.finish id status failure summary).1 = t := by
  simp only [finish, if_neg h]

/-- A finish of another task than the current one changes nothing. -/
theorem call_of_other (hc : c.finishes? = some id) (h : t.state.taskId ≠ some id) :
    t.call c = t := by
  cases c with
  | begin kind => cases hc
  | complete id summary => cases hc; exact finish_of_other h _ _ _
  | fail id failure => cases hc; exact finish_of_other h _ _ _

/-- A finish of the current task ends it, also if it has ended before. -/
theorem call_of_current (hc : c.finishes? = some id) (h : t.state.taskId = some id) :
    (t.call c).state.taskId = some id ∧ (t.call c).isRunning = false := by
  cases c with
  | begin kind => cases hc
  | complete id summary => cases hc; simp [call, complete, finish, h, isRunning]
  | fail id failure => cases hc; simp [call, fail, finish, h, isRunning]

/-! ### The ids that are given -/

theorem issued_finish (t : Tracker) (id : TaskId) :
    (t.finish id status failure summary).1.issued = t.issued := by
  unfold finish
  split
  · rfl
  · rfl

theorem issued_le_call (t : Tracker) (c : TaskCall) : t.issued ≤ (t.call c).issued := by
  cases c with
  | begin kind => exact Nat.le_succ _
  | complete id summary => exact Nat.le_of_eq (t.issued_finish id).symm
  | fail id failure => exact Nat.le_of_eq (t.issued_finish id).symm

theorem issued_le_after (calls : List TaskCall) (t : Tracker) :
    t.issued ≤ (t.after calls).issued := by
  induction calls generalizing t with
  | nil => exact Nat.le_refl _
  | cons c calls ih => exact Nat.le_trans (t.issued_le_call c) (ih (t.call c))

/-- A begin gives an id that the begins before it did not give. -/
theorem begin_after_ne (t : Tracker) (calls : List TaskCall) (kind kind' : TaskKind) :
    ((t.after (.begin kind :: calls)).begin kind').1 ≠ (t.begin kind).1 := by
  intro h
  have hcount : (t.after (.begin kind :: calls)).issued + 1 = t.issued + 1 := TaskId.issued.inj h
  have hgrown : t.issued + 1 ≤ (t.after (.begin kind :: calls)).issued :=
    issued_le_after calls (t.begin kind).2
  omega

/-! ### The shape of the state -/

theorem wellFormed_finish (h : t.state.WellFormed) (hend : TaskEnd status failure summary)
    (id : TaskId) : (t.finish id status failure summary).1.state.WellFormed := by
  by_cases hid : t.state.taskId = some id
  · simp only [finish, if_pos hid]
    generalize t.state = state at h hid
    -- an idle tracker has no current task, and a task that has ended can end again
    cases h with
    | idle => cases hid
    | running | completed | failed =>
      cases hend with
      | completed => exact .completed ..
      | failed => exact .failed ..
  · rwa [finish_of_other hid]

/-- One call keeps the shape. -/
theorem wellFormed_call (h : t.state.WellFormed) (c : TaskCall) :
    (t.call c).state.WellFormed := by
  cases c with
  | begin kind => exact .running _ kind .clock
  | complete id summary => exact wellFormed_finish h (.completed summary) id
  | fail id failure => exact wellFormed_finish h (.failed failure) id

end Tracker

/-! ### The latest begin -/

/-- The latest begin among the calls gave the id `id`, and `since` are the calls after it. -/
def LatestBegin (calls : List TaskCall) (id : TaskId) (since : List TaskCall) : Prop :=
  ∃ before kind, calls = before ++ .begin kind :: since ∧
    id = ((({} : Tracker).after before).begin kind).1 ∧ ∀ c ∈ since, ∀ kind, c ≠ .begin kind

namespace LatestBegin

variable {calls since : List TaskCall} {id : TaskId}

theorem not_nil : ¬ LatestBegin [] id since := by
  rintro ⟨before, kind, hcalls, -⟩
  cases before <;> cases hcalls

theorem concat_begin (kind : TaskKind) :
    LatestBegin (calls ++ [.begin kind]) id since ↔
      id = ((({} : Tracker).after calls).begin kind).1 ∧ since = [] := by
  constructor
  · rintro ⟨before, kind', hcalls, hid, hsince⟩
    rcases since.eq_nil_or_concat' with rfl | ⟨between, c, rfl⟩
    · obtain ⟨rfl, hlast⟩ := List.append_inj' hcalls rfl
      cases hlast
      exact ⟨hid, rfl⟩
    · rw [← List.cons_append, ← List.append_assoc] at hcalls
      obtain ⟨-, hlast⟩ := List.append_inj' hcalls rfl
      exact absurd (List.singleton_inj.mp hlast).symm (hsince c (by simp) kind)
  · rintro ⟨rfl, rfl⟩
    exact ⟨calls, kind, rfl, rfl, by simp⟩

theorem concat_finish {c : TaskCall} {other : TaskId} (hc : c.finishes? = some other) :
    LatestBegin (calls ++ [c]) id since ↔
      ∃ between, since = between ++ [c] ∧ LatestBegin calls id between := by
  constructor
  · rintro ⟨before, kind, hcalls, hid, hsince⟩
    rcases since.eq_nil_or_concat' with rfl | ⟨between, d, rfl⟩
    · obtain ⟨-, hlast⟩ := List.append_inj' hcalls rfl
      cases hlast
      cases hc
    · rw [← List.cons_append, ← List.append_assoc] at hcalls
      obtain ⟨hinit, hlast⟩ := List.append_inj' hcalls rfl
      cases hlast
      exact ⟨between, rfl, before, kind, hinit, hid,
        fun e he => hsince e (List.mem_append_left _ he)⟩
  · rintro ⟨between, rfl, before, kind, rfl, hid, hbetween⟩
    refine ⟨before, kind, by simp, hid, ?_⟩
    intro d hd kind'
    rcases List.mem_append.mp hd with hd | hd
    · exact hbetween d hd kind'
    · rintro rfl
      cases List.mem_singleton.mp hd
      cases hc

end LatestBegin

/-! ### The invariant -/

namespace Tracker

/-- What a tracker knows of the calls that were made. -/
structure Follows (t : Tracker) (calls : List TaskCall) : Prop where
  wellFormed : t.state.WellFormed
  current : ∀ id, t.state.taskId = some id ↔ ∃ since, LatestBegin calls id since
  running : t.isRunning = true ↔
    ∃ id since, LatestBegin calls id since ∧ ∀ c ∈ since, c.finishes? ≠ some id

namespace Follows

variable {t : Tracker} {calls : List TaskCall}

theorem start : Follows {} [] where
  wellFormed := .idle
  current _ := ⟨(nomatch ·), fun ⟨_, h⟩ => absurd h LatestBegin.not_nil⟩
  running := ⟨(nomatch ·), fun ⟨_, _, h, _⟩ => absurd h LatestBegin.not_nil⟩

theorem begin (h : Follows (({} : Tracker).after calls) calls) (kind : TaskKind) :
    Follows ((({} : Tracker).after calls).begin kind).2 (calls ++ [.begin kind]) where
  wellFormed := wellFormed_call h.wellFormed (.begin kind)
  current id := by
    simp only [LatestBegin.concat_begin, exists_and_left, exists_eq, and_true]
    exact ⟨fun hid => (Option.some.inj hid).symm, fun hid => congrArg some hid.symm⟩
  running := by
    simp only [LatestBegin.concat_begin]
    exact ⟨fun _ => ⟨_, [], ⟨rfl, rfl⟩, by simp⟩, fun _ => rfl⟩

theorem finish (h : Follows t calls) {c : TaskCall} {id : TaskId} (hc : c.finishes? = some id) :
    Follows (t.call c) (calls ++ [c]) := by
  have hlatest (other : TaskId) : (∃ since, LatestBegin (calls ++ [c]) other since) ↔
      t.state.taskId = some other := by
    rw [h.current]
    simp only [LatestBegin.concat_finish hc]
    exact ⟨fun ⟨_, between, _, hb⟩ => ⟨between, hb⟩, fun ⟨between, hb⟩ => ⟨_, between, rfl, hb⟩⟩
  by_cases hid : t.state.taskId = some id
  case pos =>
    obtain ⟨hcurrent, hended⟩ := call_of_current hc hid
    refine ⟨wellFormed_call h.wellFormed c, fun other => ?_, ?_⟩
    · rw [hlatest, hcurrent, hid]
    · rw [hended]
      refine ⟨fun hrun => absurd hrun (by decide), ?_⟩
      rintro ⟨other, since, hbegin, hopen⟩
      -- the task that would still run is the one that this call finishes
      have hsame : other = id :=
        Option.some.inj (((hlatest other).mp ⟨since, hbegin⟩).symm.trans hid)
      obtain ⟨between, rfl, -⟩ := (LatestBegin.concat_finish hc).mp hbegin
      exact absurd (hsame ▸ hc) (hopen c (by simp))
  case neg =>
    rw [call_of_other hc hid]
    refine ⟨h.wellFormed, fun other => (hlatest other).symm, ?_⟩
    rw [h.running]
    constructor
    · rintro ⟨other, between, hbegin, hopen⟩
      refine ⟨other, _, (LatestBegin.concat_finish hc).mpr ⟨between, rfl, hbegin⟩, ?_⟩
      intro d hd
      rcases List.mem_append.mp hd with hd | hd
      · exact hopen d hd
      · cases List.mem_singleton.mp hd
        have hcurrent := (h.current other).mpr ⟨between, hbegin⟩
        exact fun hother => hid (hcurrent.trans (hother.symm.trans hc))
    · rintro ⟨other, since, hbegin, hopen⟩
      obtain ⟨between, rfl, hbetween⟩ := (LatestBegin.concat_finish hc).mp hbegin
      exact ⟨other, between, hbetween, fun d hd => hopen d (List.mem_append_left _ hd)⟩

end Follows

theorem follows_after (calls : List TaskCall) : Follows (({} : Tracker).after calls) calls := by
  induction calls using List.reverseRecOn with
  | nil => exact .start
  | append_singleton calls c ih =>
    rw [after_concat]
    cases c with
    | begin kind => exact ih.begin kind
    | complete id summary => exact ih.finish (c := .complete id summary) rfl
    | fail id failure => exact ih.finish (c := .fail id failure) rfl

/-- **After any calls the state has one of its four shapes, and only the latest begin can be
finished or asked for.** -/
theorem lifecycle (calls : List TaskCall) :
    let t := ({} : Tracker).after calls
    t.state.WellFormed ∧
    (∀ id, (¬ ∃ since, LatestBegin calls id since) →
      (∀ summary, (t.complete id summary).1 = t) ∧ ∀ failure, (t.fail id failure).1 = t) ∧
    (∀ id, t.task id = some t.state ∧ (∃ since, LatestBegin calls id since) ∨
      t.task id = none ∧ ¬ ∃ since, LatestBegin calls id since) ∧
    (∀ id, (t.status id).1 = t.state.status) ∧
    (t.isRunning = true ↔
      ∃ id since, LatestBegin calls id since ∧ ∀ c ∈ since, c.finishes? ≠ some id) ∧
    ∀ before kind since, calls = before ++ .begin kind :: since →
      ∀ kind', (t.begin kind').1 ≠ ((({} : Tracker).after before).begin kind).1 := by
  intro t
  have h : Follows t calls := follows_after calls
  refine ⟨h.wellFormed, ?stale, ?asked, fun id => rfl, h.running, ?fresh⟩
  case stale =>
    intro id hid
    rw [← h.current] at hid
    exact ⟨fun _ => finish_of_other hid _ _ _, fun _ => finish_of_other hid _ _ _⟩
  case asked =>
    intro id
    rw [← h.current, task]
    by_cases hid : t.state.taskId = some id
    · exact .inl ⟨if_pos hid, hid⟩
    · exact .inr ⟨if_neg hid, hid⟩
  case fresh =>
    rintro before kind since rfl kind'
    have hsplit : t = (({} : Tracker).after before).after (.begin kind :: since) :=
      List.foldl_append
    rw [hsplit]
    exact begin_after_ne _ since kind kind'

/-- The first task is finished late: the second runs on, until it is finished itself. -/
example :
    let t := ({} : Tracker).after
      [.begin .reset, .begin .incremental, .fail (.issued 1) "feed unavailable"]
    t.isRunning = true ∧ t.task (.issued 1) = none ∧
      (t.call (.complete (.issued 2) {})).isRunning = false := by
  decide

end Tracker

end PinLedger
