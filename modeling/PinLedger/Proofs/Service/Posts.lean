import PinLedger.Proofs.Service.Stages

/-!
# PinLedger.Proofs.Service.Posts

A service in single steps. Of those who ask it for a run one at a time is let through its gate, and
beside them its worker does one job after another; between two steps anybody else may act.

* `Gate`, `Phase` — how far an asker and the worker have come
* `Post` — a service with its gate and its worker
* `Post.next` — one step
* `next_start`, `next_work` — undisturbed, the steps are an admission and a job
-/

namespace PinLedger

/-! ### Admission and release in steps -/

namespace Engine

/-- A new session. -/
def connect (e : Engine) : Except Refusal SessionId × Engine :=
  match e.site.outages.onOpen with
  | some t => (.error (.trouble t), e)
  | none =>
    match e.site.store.openSession with
    | .error err => (.error (.trouble (.error err)), e)
    | .ok (session, store) => (.ok session, e.withStore store)

theorem acquire_eq (e : Engine) :
    e.acquire =
      match e.connect with
      | (.error r, e) => (.error r, e)
      | (.ok session, e) => e.takeLock session := by
  unfold acquire connect
  cases e.site.outages.onOpen with
  | some t => rfl
  | none =>
    cases e.site.store.openSession with
    | error err => rfl
    | ok opened => rfl

def beginTask (e : Engine) (kind : TaskKind) : TaskId × Engine :=
  let (task, tracker) := e.service.tracker.begin kind
  (task, { e with service := { e.service with tracker } })

/-- Hands a job to the worker, if there is one. -/
def enqueue (e : Engine) (job : Job) : Except Refusal TaskId × Engine :=
  if e.service.stopped then
    (.error .stopped, (e.dropSession job.session).failTask job.task "pinning worker stopped")
  else
    (.ok job.task, { e with service := { e.service with jobs := e.service.jobs ++ [job] } })

theorem submit_eq (e : Engine) (kind : TaskKind) (session : SessionId) :
    e.submit kind session = (e.beginTask kind).2.enqueue ⟨(e.beginTask kind).1, kind, session⟩ :=
  rfl

/-- Gives the lock back. -/
def giveBack (e : Engine) (session : SessionId) : Engine :=
  let key := e.service.settings.lockKey
  match e.site.outages.onUnlock with
  | some (.error err) => e.warn [.unlockFailed key err]
  | some (.breakdown text) => e.warn [.unlockLost text]
  | none =>
    if e.site.outages.unlock = some .refusal then e.warn [.lockNotHeld key]
    else
      let (held, store) := e.site.store.unlock session key
      (e.withStore store).warn (if held then [] else [.lockNotHeld key])

theorem release_eq (e : Engine) (session : SessionId) :
    e.release session = (e.giveBack session).dropSession session := rfl

end Engine

/-! ### Posts -/

/-- How far the one who is let through the gate has come. -/
inductive Gate where
  | free
  /-- No run was under way. -/
  | checked (kind : TaskKind)
  | opened (kind : TaskKind) (session : SessionId)
  | locked (kind : TaskKind) (session : SessionId)
  | begun (job : Job)
deriving DecidableEq

namespace Gate

def session? : Gate → Option SessionId
  | .opened _ session => some session
  | .locked _ session => some session
  | .begun job => some job.session
  | _ => none

/-- The session of a run that has got the lock and is about to be handed over. -/
def lock? : Gate → Option SessionId
  | .locked _ session => some session
  | .begun job => some job.session
  | _ => none

end Gate

/-- How far a job has come. -/
inductive Phase where
  | taken
  | begun (r : Request)
  | gathered (r : Request) (l : Load)
  | ended (result : Except RunError RunSummary)
  | unlocked (result : Except RunError RunSummary)
  /-- Its session has ended. -/
  | released (result : Except RunError RunSummary)

/-- A job that the worker has taken. -/
structure Duty where
  job : Job
  phase : Phase

/-- A service, its gate and its worker. -/
structure Post where
  engine : Engine
  gate : Gate := .free
  duty : Option Duty := none

namespace Post

abbrev service (p : Post) : Service := p.engine.service

abbrev store (p : Post) : Store := p.engine.site.store

/-! ### Steps of an admission -/

def call (p : Post) (kind : TaskKind) : Post :=
  match p.gate with
  | .free => if p.service.tracker.isRunning then p else { p with gate := .checked kind }
  | _ => p

def connect (p : Post) : Post :=
  match p.gate with
  | .checked kind =>
    match p.engine.connect with
    | (.error _, e) => { p with engine := e, gate := .free }
    | (.ok session, e) => { p with engine := e, gate := .opened kind session }
  | _ => p

def lock (p : Post) : Post :=
  match p.gate with
  | .opened kind session =>
    match p.engine.takeLock session with
    | (.error _, e) => { p with engine := e, gate := .free }
    | (.ok session, e) => { p with engine := e, gate := .locked kind session }
  | _ => p

def begin (p : Post) : Post :=
  match p.gate with
  | .locked kind session =>
    let (task, e) := p.engine.beginTask kind
    { p with engine := e, gate := .begun ⟨task, kind, session⟩ }
  | _ => p

def send (p : Post) : Post :=
  match p.gate with
  | .begun job => { p with engine := (p.engine.enqueue job).2, gate := .free }
  | _ => p

/-! ### Steps of the worker -/

def pickUp (p : Post) : Post :=
  match p.duty, p.service.jobs with
  | none, job :: rest =>
    { p with
      engine := { p.engine with service := { p.service with jobs := rest } }
      duty := some ⟨job, .taken⟩ }
  | _, _ => p

/-- The end of a run: it takes the worker with it, or its session, or neither. -/
def finish (p : Post) (job : Job) : Except RunError RunSummary × Engine → Post
  | (.error (.catalog (.breakdown _)), e) => { p with engine := e.stop job.session, duty := none }
  | (.error .lost, e) =>
    { p with engine := e.dropSession job.session, duty := some ⟨job, .released (.error .lost)⟩ }
  | (r, e) => { p with engine := e, duty := some ⟨job, .ended r⟩ }

def read (p : Post) : Post :=
  match p.duty with
  | some ⟨job, .taken⟩ =>
    match p.engine.begin job.kind with
    | (.error err, e) => p.finish job (.error err, e)
    | (.ok r, e) => { p with engine := e, duty := some ⟨job, .begun r⟩ }
  | _ => p

def gather (p : Post) : Post :=
  match p.duty with
  | some ⟨job, .begun r⟩ =>
    match p.engine.gather r with
    | .error err => p.finish job (.error err, p.engine)
    | .ok l => { p with duty := some ⟨job, .gathered r l⟩ }
  | _ => p

def commit (p : Post) : Post :=
  match p.duty with
  | some ⟨job, .gathered _ l⟩ => p.finish job (p.engine.commit l)
  | _ => p

def unlock (p : Post) : Post :=
  match p.duty with
  | some ⟨job, .ended result⟩ =>
    { p with engine := p.engine.giveBack job.session, duty := some ⟨job, .unlocked result⟩ }
  | _ => p

def drop (p : Post) : Post :=
  match p.duty with
  | some ⟨job, .unlocked result⟩ =>
    { p with engine := p.engine.dropSession job.session, duty := some ⟨job, .released result⟩ }
  | _ => p

def conclude (p : Post) : Post :=
  match p.duty with
  | some ⟨job, .released result⟩ =>
    { p with engine := p.engine.conclude job.task result, duty := none }
  | _ => p

/-! ### Steps -/

/-- All but the store of the site changes. -/
def tell (p : Post) (site : Site) : Post :=
  { p with engine := { p.engine with site := { site with store := p.store } } }

end Post

inductive Move where
  | call (kind : TaskKind)
  | connect
  | lock
  | begin
  | send
  | pickUp
  | read
  | gather
  | commit
  | unlock
  | drop
  | conclude
  | tell (site : Site)

/-- The steps up to the lock. -/
def Move.asks : Move → Bool
  | .call _ => true
  | .connect => true
  | .lock => true
  | _ => false

namespace Post

/-- One step. A step whose turn has not come changes nothing. -/
def next (p : Post) : Move → Post
  | .call kind => p.call kind
  | .connect => p.connect
  | .lock => p.lock
  | .begin => p.begin
  | .send => p.send
  | .pickUp => p.pickUp
  | .read => p.read
  | .gather => p.gather
  | .commit => p.commit
  | .unlock => p.unlock
  | .drop => p.drop
  | .conclude => p.conclude
  | .tell site => p.tell site

def after (p : Post) (moves : List Move) : Post := moves.foldl next p

/-! ### Steps that nobody disturbs -/

/-- Whoever finds the gate free and is not disturbed is admitted as by the service at once. -/
theorem next_start (p : Post) (kind : TaskKind) (h : p.gate = .free) :
    p.after [.call kind, .connect, .lock, .begin, .send] =
      { p with engine := (p.engine.start kind).2 } := by
  obtain ⟨e, gate, duty⟩ := p
  cases h
  simp only [after, List.foldl_cons, List.foldl_nil, next, call, Engine.start, Engine.submit_eq]
  cases hrun : e.service.tracker.isRunning with
  | true => rfl
  | false =>
    simp only [Bool.false_eq_true, if_false, connect, Engine.acquire_eq]
    rcases e.connect with ⟨r, e₁⟩
    cases r with
    | error r => rfl
    | ok session =>
      simp only [lock]
      rcases e₁.takeLock session with ⟨r, e₂⟩
      cases r with
      | error r => rfl
      | ok session => rfl

/-- What the worker still has to do once a run has ended. -/
theorem after_finish (p : Post) (e : Engine) (job : Job) :
    (p.finish job (e.perform job.kind)).after [.unlock, .drop, .conclude] =
      { p with engine := e.runJob job, duty := none } := by
  simp only [Engine.runJob, Engine.release_eq]
  rcases e.perform job.kind with ⟨r, e'⟩
  rcases r with err | sum
  · cases err with
    | store err => rfl
    | feed err => rfl
    | catalog err =>
      cases err with
      | mappingFile path => rfl
      | lookup layer text => rfl
      | breakdown text => rfl
    | lost => rfl
  · rfl

/-- A run that has ended neither asks the feed nor commits. -/
theorem after_finish_idle (p : Post) (job : Job) (x : Except RunError RunSummary × Engine) :
    (p.finish job x).gather = p.finish job x ∧ (p.finish job x).commit = p.finish job x := by
  rcases x with ⟨r, e⟩
  rcases r with err | sum
  · cases err with
    | store err => exact ⟨rfl, rfl⟩
    | feed err => exact ⟨rfl, rfl⟩
    | catalog err =>
      cases err with
      | mappingFile path => exact ⟨rfl, rfl⟩
      | lookup layer text => exact ⟨rfl, rfl⟩
      | breakdown text => exact ⟨rfl, rfl⟩
    | lost => exact ⟨rfl, rfl⟩
  · exact ⟨rfl, rfl⟩

/-- The worker does the steps up to the end of a run as the run does its stages. -/
theorem after_taken (p : Post) (job : Job) (h : p.duty = some ⟨job, .taken⟩) :
    p.after [.read, .gather, .commit] = p.finish job (p.engine.perform job.kind) := by
  simp only [after, List.foldl_cons, List.foldl_nil, next, read, h, Engine.perform_eq_stages]
  rcases p.engine.begin job.kind with ⟨r, e⟩
  cases r with
  | error err =>
    simp only [after_finish_idle]
  | ok r =>
    simp only [gather]
    cases e.gather r with
    | error err =>
      simp only [after_finish_idle]
      rfl
    | ok l => rfl

theorem pickUp_of_nil {p : Post} (h : p.service.jobs = []) : p.pickUp = p := by
  unfold pickUp
  rw [h]
  cases p.duty with
  | none => rfl
  | some duty => rfl

theorem pickUp_of_cons {p : Post} {job : Job} {rest : List Job} (h : p.duty = none)
    (hjobs : p.service.jobs = job :: rest) :
    p.pickUp = { p with
      engine := { p.engine with service := { p.service with jobs := rest } }
      duty := some ⟨job, .taken⟩ } := by
  unfold pickUp
  rw [h, hjobs]

/-- A worker without a duty that is not disturbed does a job as the service does at once. -/
theorem next_work (p : Post) (h : p.duty = none) :
    p.after [.pickUp, .read, .gather, .commit, .unlock, .drop, .conclude] =
      { p with engine := p.engine.work } := by
  have hsplit : p.after [.pickUp, .read, .gather, .commit, .unlock, .drop, .conclude] =
      (p.pickUp.after [.read, .gather, .commit]).after [.unlock, .drop, .conclude] := rfl
  rw [hsplit]
  cases hjobs : p.service.jobs with
  | nil =>
    obtain ⟨e, gate, duty⟩ := p
    cases h
    have hwork : e.work = e := by
      unfold Engine.work
      rw [hjobs]
    rw [pickUp_of_nil hjobs, hwork]
    rfl
  | cons job rest =>
    have hwork : p.engine.work =
        { p.engine with service := { p.service with jobs := rest } }.runJob job := by
      unfold Engine.work
      rw [hjobs]
    rw [pickUp_of_cons h hjobs, after_taken _ job rfl, after_finish, hwork, h]

end Post

end PinLedger
