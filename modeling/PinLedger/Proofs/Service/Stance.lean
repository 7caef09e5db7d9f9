import PinLedger.Proofs.Service.Posts
import PinLedger.Proofs.Store.Locks

/-!
# PinLedger.Proofs.Service.Stance

What a service is doing. It never does two things at once: its tracker tells of a task from before
the job is handed over until after its session has ended.

* `Stance` — what a service may be doing
* `Post.Takes` — the gate, the jobs, the worker and the tracker are as the stance says
* `Backed` — the store is as the stance needs it
* `Post.Step` — what a step may do to the stance and to the store
-/

namespace PinLedger

/-! ### Stances -/

namespace Phase

/-- The session of the job has not ended. -/
def inSession : Phase → Bool
  | .released _ => false
  | _ => true

/-- The lock has not been given back. -/
def inLock : Phase → Bool
  | .unlocked _ => false
  | .released _ => false
  | _ => true

/-- The watermark that the run has read, until its transaction. -/
def mark? : Phase → Option (Option Instant)
  | .begun (.since mark) => some mark
  | .gathered (.since mark) _ => some mark
  | _ => none

end Phase

/-- What a service is doing. -/
inductive Stance where
  | resting
  | asking (kind : TaskKind)
  | opened (kind : TaskKind) (session : SessionId)
  | locked (kind : TaskKind) (session : SessionId)
  | begun (job : Job)
  | queued (job : Job)
  | working (duty : Duty)
  /-- The catalog broke down and took the worker with it. The tracker tells of the task for ever. -/
  | stranded

namespace Stance

def gate : Stance → Gate
  | .asking kind => .checked kind
  | .opened kind session => .opened kind session
  | .locked kind session => .locked kind session
  | .begun job => .begun job
  | _ => .free

def jobs : Stance → List Job
  | .queued job => [job]
  | _ => []

def duty : Stance → Option Duty
  | .working duty => some duty
  | _ => none

/-- The job whose task the tracker tells of. -/
def job? : Stance → Option Job
  | .begun job => some job
  | .queued job => some job
  | .working duty => some duty.job
  | _ => none

def stopped : Stance → Bool
  | .stranded => true
  | _ => false

/-- The session that the service has. -/
def session? : Stance → Option SessionId
  | .opened _ session => some session
  | .locked _ session => some session
  | .begun job => some job.session
  | .queued job => some job.session
  | .working duty => if duty.phase.inSession then some duty.job.session else none
  | _ => none

/-- The session, as long as it has to hold the lock. -/
def lock? : Stance → Option SessionId
  | .locked _ session => some session
  | .begun job => some job.session
  | .queued job => some job.session
  | .working duty => if duty.phase.inLock then some duty.job.session else none
  | _ => none

def mark? : Stance → Option (Option Instant)
  | .working duty => duty.phase.mark?
  | _ => none

variable {t : Stance}

theorem session_of_lock {a : SessionId} (h : t.lock? = some a) : t.session? = some a := by
  cases t with
  | working duty =>
    obtain ⟨job, phase⟩ := duty
    cases phase with
    | unlocked result => cases h
    | released result => cases h
    | _ => exact h
  | resting => cases h
  | asking kind => cases h
  | opened kind session => cases h
  | stranded => cases h
  | _ => exact h

theorem lock_of_mark {m : Option Instant} (h : t.mark? = some m) : ∃ a, t.lock? = some a := by
  cases t with
  | working duty =>
    obtain ⟨job, phase⟩ := duty
    cases phase with
    | begun r => exact ⟨job.session, rfl⟩
    | gathered r l => exact ⟨job.session, rfl⟩
    | _ => cases h
  | _ => cases h

theorem of_gate_checked {kind : TaskKind} (h : t.gate = .checked kind) : t = .asking kind := by
  cases t with
  | asking kind =>
    cases h
    rfl
  | _ => cases h

theorem of_gate_opened {kind : TaskKind} {a : SessionId} (h : t.gate = .opened kind a) :
    t = .opened kind a := by
  cases t with
  | opened kind session =>
    cases h
    rfl
  | _ => cases h

theorem of_gate_locked {kind : TaskKind} {a : SessionId} (h : t.gate = .locked kind a) :
    t = .locked kind a := by
  cases t with
  | locked kind session =>
    cases h
    rfl
  | _ => cases h

theorem of_gate_begun {job : Job} (h : t.gate = .begun job) : t = .begun job := by
  cases t with
  | begun job =>
    cases h
    rfl
  | _ => cases h

theorem of_jobs {job : Job} {rest : List Job} (h : t.jobs = job :: rest) :
    t = .queued job ∧ rest = [] := by
  cases t with
  | queued job =>
    cases h
    exact ⟨rfl, rfl⟩
  | _ => cases h

theorem of_duty {duty : Duty} (h : t.duty = some duty) : t = .working duty := by
  cases t with
  | working duty =>
    cases h
    rfl
  | _ => cases h

theorem eq_resting (hgate : t.gate = .free) (hrun : (t.job?.isSome || t.stopped) = false) :
    t = .resting := by
  cases t with
  | resting => rfl
  | queued job => cases hrun
  | working duty => cases hrun
  | stranded => cases hrun
  | _ => cases hgate

end Stance

/-- The gate, the jobs, the worker and the tracker are as the stance says. -/
structure Post.Takes (key : Int) (p : Post) (t : Stance) : Prop where
  gate : p.gate = t.gate
  jobs : p.service.jobs = t.jobs
  duty : p.duty = t.duty
  lockKey : p.service.settings.lockKey = key
  stopped : p.service.stopped = t.stopped
  running : p.service.tracker.isRunning = (t.job?.isSome || t.stopped)
  current : ∀ job, t.job? = some job → p.service.tracker.state.taskId = some job.task

/-- The store is as the stance needs it. -/
structure Backed (key : Int) (s : Store) (t : Stance) : Prop where
  held : ∀ a, t.lock? = some a → s.Holds a key
  only : ∀ a k, t.session? = some a → s.Holds a k → k = key
  fresh : ∀ kind a, t = .opened kind a → ∀ k, ¬ s.Holds a k
  mark : ∀ m, t.mark? = some m → m = s.data.lastRun

/-- From one post to another. What the post has done since is its own affair. -/
structure Post.Step (key : Int) (p q : Post) (t t' : Stance) : Prop where
  takes : q.Takes key t'
  backed : Backed key q.store t'
  others : ∀ b k, t.session? ≠ some b → (q.store.Holds b k ↔ p.store.Holds b k)
  session : ∀ a, t'.session? = some a →
    t.session? = some a ∨ a = p.store.nextSession ∧ p.store.nextSession < q.store.nextSession
  sessions : p.store.nextSession ≤ q.store.nextSession
  closed : ∀ a, t.session? = some a → t'.session? ≠ some a → ∀ k, ¬ q.store.Holds a k
  data : t.lock? = none → q.store.data = p.store.data

/-- What the stance needs is left to it. -/
theorem Backed.frame {key : Int} {s s' : Store} {t : Stance} (h : Backed key s t)
    (hlocks : ∀ a k, t.session? = some a → (s'.Holds a k ↔ s.Holds a k))
    (hdata : ∀ m, t.mark? = some m → s'.data = s.data) : Backed key s' t := by
  refine ⟨?_, ?_, ?_, ?_⟩
  · intro a ha
    exact (hlocks a key (Stance.session_of_lock ha)).2 (h.held a ha)
  · intro a k ha hk
    exact h.only a k ha ((hlocks a k ha).1 hk)
  · intro kind a ht k hk
    have ha : t.session? = some a := by
      rw [ht]
      rfl
    exact h.fresh kind a ht k ((hlocks a k ha).1 hk)
  · intro m hm
    rw [hdata m hm]
    exact h.mark m hm

namespace Post

variable {key : Int} {p q : Post} {t t' : Stance} {a : SessionId}

theorem holds_congr {s s' : Store} (h : s'.locks = s.locks) (b : SessionId) (k : Int) :
    s'.Holds b k ↔ s.Holds b k := by
  unfold Store.Holds
  rw [h]

/-! ### Kinds of steps -/

/-- The stance stays as it is. -/
theorem Step.stay (ht : q.Takes key t) (hs : Backed key p.store t) (hstore : q.store = p.store) :
    Step key p q t t := by
  refine ⟨ht, ?_, ?_, ?_, ?_, ?_, ?_⟩
  · rw [hstore]
    exact hs
  · intro b k _
    rw [hstore]
  · intro a ha
    exact .inl ha
  · exact Nat.le_of_eq (congrArg Store.nextSession hstore).symm
  · intro a ha hne
    exact absurd ha hne
  · intro _
    rw [hstore]

/-- The service goes on with its session, or without one, and leaves the locks as they are. -/
theorem Step.go (ht : q.Takes key t') (hs : Backed key p.store t)
    (hlocks : q.store.locks = p.store.locks)
    (hnext : q.store.nextSession = p.store.nextSession)
    (hsession : t'.session? = t.session?)
    (hheld : ∀ a, t'.lock? = some a → t.lock? = some a)
    (hfresh : ∀ kind a, t' ≠ .opened kind a)
    (hmark : ∀ m, t'.mark? = some m → m = q.store.data.lastRun)
    (hdata : t.lock? = none → q.store.data = p.store.data) : Step key p q t t' := by
  refine ⟨ht, ⟨?_, ?_, ?_, hmark⟩, ?_, ?_, ?_, ?_, hdata⟩
  · intro a ha
    exact (holds_congr hlocks a key).2 (hs.held a (hheld a ha))
  · intro a k ha hk
    exact hs.only a k (hsession ▸ ha) ((holds_congr hlocks a k).1 hk)
  · intro kind a hopen
    exact absurd hopen (hfresh kind a)
  · intro b k _
    exact holds_congr hlocks b k
  · intro a ha
    exact .inl (hsession ▸ ha)
  · exact Nat.le_of_eq hnext.symm
  · intro a ha hne
    exact absurd (hsession ▸ ha) hne

/-- The service goes on and leaves the store as it is. -/
theorem Step.quiet (ht : q.Takes key t') (hs : Backed key p.store t) (hstore : q.store = p.store)
    (hsession : t'.session? = t.session?) (hlock : t'.lock? = t.lock?)
    (hfresh : ∀ kind a, t' ≠ .opened kind a) (hmark : t'.mark? = none) : Step key p q t t' := by
  refine .go ht hs (congrArg Store.locks hstore) (congrArg Store.nextSession hstore) hsession
    ?_ hfresh ?_ (fun _ => congrArg Store.data hstore)
  · intro a ha
    exact hlock ▸ ha
  · intro m hm
    rw [hmark] at hm
    cases hm

/-- The service ends its session. -/
theorem Step.leave (ht : q.Takes key t') (hsession : t.session? = some a)
    (hnone : t'.session? = none)
    (hlocks : q.store.locks = (p.store.dropSession a).locks)
    (hnext : q.store.nextSession = p.store.nextSession)
    (hdata : q.store.data = p.store.data) : Step key p q t t' := by
  have hholds : ∀ b k, q.store.Holds b k ↔ p.store.Holds b k ∧ b ≠ a := by
    intro b k
    rw [holds_congr hlocks, Store.holds_dropSession]
  have hgone : ∀ b, t'.session? ≠ some b := by
    intro b hb
    rw [hnone] at hb
    cases hb
  refine ⟨ht, ⟨?_, ?_, ?_, ?_⟩, ?_, ?_, ?_, ?_, fun _ => hdata⟩
  · intro b hb
    exact absurd (Stance.session_of_lock hb) (hgone b)
  · intro b k hb
    exact absurd hb (hgone b)
  · rintro kind b rfl
    exact absurd rfl (hgone b)
  · intro m hm
    obtain ⟨b, hb⟩ := Stance.lock_of_mark hm
    exact absurd (Stance.session_of_lock hb) (hgone b)
  · intro b k hb
    rw [hholds]
    constructor
    · exact And.left
    · intro h
      refine ⟨h, ?_⟩
      rintro rfl
      exact hb hsession
  · intro b hb
    exact absurd hb (hgone b)
  · exact Nat.le_of_eq hnext.symm
  · intro b hb _ k hk
    have hsame : b = a := Option.some.inj (hb.symm.trans hsession)
    exact ((hholds b k).1 hk).2 hsame

/-! ### What can be seen of a service -/

/-- The jobs that wait or are being done. -/
def runs (p : Post) : List Job := p.service.jobs ++ p.duty.toList.map (·.job)

/-- The sessions that have got the lock and have not given it back. -/
def holders (p : Post) : List SessionId :=
  p.gate.lock?.toList ++ p.service.jobs.map (·.session) ++
    (p.duty.toList.filter (·.phase.inLock)).map (·.job.session)

/-- The sessions that have not ended. -/
def sessions (p : Post) : List SessionId :=
  p.gate.session?.toList ++ p.service.jobs.map (·.session) ++
    (p.duty.toList.filter (·.phase.inSession)).map (·.job.session)

/-- The watermark that the run has read, until its transaction. -/
def mark? (p : Post) : Option (Option Instant) := p.duty.bind (·.phase.mark?)

theorem Takes.runs_eq (ht : p.Takes key t) : p.runs = t.jobs ++ t.duty.toList.map (·.job) := by
  unfold runs
  rw [ht.jobs, ht.duty]

theorem Takes.length_runs (ht : p.Takes key t) : p.runs.length ≤ 1 := by
  rw [ht.runs_eq]
  cases t with
  | queued job => exact Nat.le_refl _
  | working duty => exact Nat.le_refl _
  | _ => exact Nat.zero_le _

theorem Takes.job_of_mem (ht : p.Takes key t) {job : Job} (h : job ∈ p.runs) :
    t.job? = some job := by
  rw [ht.runs_eq] at h
  cases t with
  | queued job' => exact congrArg some (List.mem_singleton.1 h).symm
  | working duty => exact congrArg some (List.mem_singleton.1 h).symm
  | _ => cases h

theorem Takes.running_iff (ht : p.Takes key t) (hgate : p.gate = .free)
    (hup : p.service.stopped = false) :
    p.service.tracker.isRunning = true ↔ p.runs ≠ [] := by
  have hfree := ht.gate.symm.trans hgate
  have hworker := ht.stopped.symm.trans hup
  rw [ht.runs_eq, ht.running]
  cases t with
  | resting => simp [Stance.job?, Stance.stopped, Stance.jobs, Stance.duty]
  | queued job => simp [Stance.job?, Stance.jobs]
  | working duty => simp [Stance.job?, Stance.duty]
  | stranded => cases hworker
  | _ => cases hfree

theorem Takes.lock_of_mem (ht : p.Takes key t) (h : a ∈ p.holders) : t.lock? = some a := by
  unfold holders at h
  rw [ht.gate, ht.jobs, ht.duty] at h
  cases t with
  | locked kind session => exact congrArg some (List.mem_singleton.1 h).symm
  | begun job => exact congrArg some (List.mem_singleton.1 h).symm
  | queued job => exact congrArg some (List.mem_singleton.1 h).symm
  | working duty =>
    obtain ⟨job, phase⟩ := duty
    cases hin : phase.inLock with
    | true =>
      have hmem : a ∈ [job.session] := by
        simpa [Stance.gate, Gate.lock?, Stance.jobs, Stance.duty, hin] using h
      rw [List.mem_singleton.1 hmem]
      exact if_pos hin
    | false => simp [Stance.gate, Gate.lock?, Stance.jobs, Stance.duty, hin] at h
  | _ => cases h

theorem Takes.mem_sessions (ht : p.Takes key t) (h : t.session? = some a) : a ∈ p.sessions := by
  unfold sessions
  rw [ht.gate, ht.jobs, ht.duty]
  cases t with
  | opened kind session => exact List.mem_singleton.2 (Option.some.inj h).symm
  | locked kind session => exact List.mem_singleton.2 (Option.some.inj h).symm
  | begun job => exact List.mem_singleton.2 (Option.some.inj h).symm
  | queued job => exact List.mem_singleton.2 (Option.some.inj h).symm
  | working duty =>
    obtain ⟨job, phase⟩ := duty
    cases hin : phase.inSession with
    | true =>
      have hsession : (Stance.working ⟨job, phase⟩).session? = some job.session := if_pos hin
      rw [hsession] at h
      cases h
      simp [Stance.gate, Gate.session?, Stance.jobs, Stance.duty, hin]
    | false => simp [Stance.session?, hin] at h
  | _ => cases h

theorem Takes.mark_eq (ht : p.Takes key t) : p.mark? = t.mark? := by
  unfold mark?
  rw [ht.duty]
  cases t with
  | _ => rfl

/-- A service that needs no lock neither reads the watermark nor commits. -/
theorem Takes.idle (ht : p.Takes key t) (h : t.lock? = none) :
    p.next .read = p ∧ p.next .commit = p := by
  have hduty : ∀ job phase, phase.inLock = true → p.duty ≠ some ⟨job, phase⟩ := by
    intro job phase hin hd
    have hworking : t = .working ⟨job, phase⟩ := Stance.of_duty (ht.duty.symm.trans hd)
    subst hworking
    have hlock : (Stance.working ⟨job, phase⟩).lock? = some job.session := if_pos hin
    rw [hlock] at h
    cases h
  constructor
  · simp only [next, read]
    split
    · rename_i job hd
      exact absurd hd (hduty job .taken rfl)
    · rfl
  · simp only [next, commit]
    split
    · rename_i job r l hd
      exact absurd hd (hduty job (.gathered r l) rfl)
    · rfl

end Post

end PinLedger
