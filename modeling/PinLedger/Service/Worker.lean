import PinLedger.Run.Error
import PinLedger.Service.Basic

/-!
# PinLedger.Service.Worker

The worker of a service. It takes one job after another; each ends with its task completed or failed
and with its lock given back.

* `Engine.perform` — a run on its session
* `Engine.release` — the lock given back
* `Engine.runJob`, `Engine.work` — a job from beginning to end
* `Engine.settle` — all jobs that wait
-/

namespace PinLedger

namespace Engine

/-! ### Runs -/

/-- Work on the store in one transaction, with the batches of the service. -/
def transact {α : Type} (e : Engine) (work : Work α) : Except RunError α × Engine :=
  match e.site.outages.onTransaction with
  | some (.error err) => (.error (.store err), e)
  | some (.breakdown _) => (.error .lost, e)
  | none =>
    let batch := e.service.settings.batchSize
    let o := e.site.store.transaction batch batch work
    let e := (e.withStore o.store).warn o.workspace.warnings
    match o.result with
    | .ok a => (.ok a, e)
    | .error (.error err) => (.error (.store err), e)
    | .error .overflow => (.error .lost, e)

/-- Reads the registry again. It stays as it is if that fails. -/
def reload (e : Engine) : Except RunError Registry × Engine :=
  let (registry, ws) := e.site.readRegistry e.service.settings.mapping
  let e := e.warn ws
  match registry with
  | .error err => (.error (.catalog err), e)
  | .ok registry => (.ok registry, { e with service := { e.service with registry } })

/-- Pins all views of the feed from scratch, with the registry read again. -/
def reset (e : Engine) : Except RunError RunSummary × Engine :=
  match e.reload with
  | (.error err, e) => (.error err, e)
  | (.ok registry, e) =>
    match e.site.fetch none with
    | .error err => (.error (.feed err), e)
    | .ok (views, latest) =>
      e.transact (Work.rebuild registry e.service.settings.window views latest)

def lastRun (e : Engine) : Except RunError (Option Instant) :=
  match e.site.outages.onLastRun with
  | some (.error err) => .error (.store err)
  | some (.breakdown _) => .error .lost
  | none => .ok e.site.store.data.lastRun

/-- The later of two watermarks, as far as there are any. -/
def laterMark : Option Instant → Option Instant → Option Instant
  | some a, some b => some (a.latest b)
  | some a, none => some a
  | none, b => b

/-- Brings the views that changed since the last run up to date. -/
def incremental (e : Engine) : Except RunError RunSummary × Engine :=
  match e.lastRun with
  | .error err => (.error err, e)
  | .ok since =>
    match e.site.fetch since with
    | .error err => (.error (.feed err), e)
    | .ok (views, latest) =>
      e.transact (Work.update e.service.registry e.service.settings.window views
        (laterMark since latest))

def perform (e : Engine) : TaskKind → Except RunError RunSummary × Engine
  | .reset => e.reset
  | .incremental => e.incremental

/-! ### Jobs -/

/-- Gives the lock back and ends the session. Whatever goes wrong is noted, and the end of the
session frees the lock anyway. -/
def release (e : Engine) (session : SessionId) : Engine :=
  let key := e.service.settings.lockKey
  let done : Engine :=
    match e.site.outages.onUnlock with
    | some (.error err) => e.warn [.unlockFailed key err]
    | some (.breakdown text) => e.warn [.unlockLost text]
    | none =>
      if e.site.outages.unlock = some .refusal then e.warn [.lockNotHeld key]
      else
        let (held, store) := e.site.store.unlock session key
        (e.withStore store).warn (if held then [] else [.lockNotHeld key])
  done.dropSession session

/-- Ends the task of a job. -/
def conclude (e : Engine) (task : TaskId) : Except RunError RunSummary → Engine
  | .ok summary => e.completeTask task summary
  | .error err => e.failTask task err.message

/-- A catalog that breaks down takes the worker with it. -/
def stop (e : Engine) (session : SessionId) : Engine :=
  let e := e.dropSession session
  let e := e.service.jobs.foldl (fun e job => e.dropSession job.session) e
  { e with service := { e.service with jobs := [], stopped := true } }

def runJob (e : Engine) (job : Job) : Engine :=
  match e.perform job.kind with
  | (.error (.catalog (.breakdown _)), e) => e.stop job.session
  | (.error .lost, e) => (e.dropSession job.session).conclude job.task (.error .lost)
  | (r, e) => (e.release job.session).conclude job.task r

/-- Does the job that has waited longest. -/
def work (e : Engine) : Engine :=
  match e.service.jobs with
  | [] => e
  | job :: rest => { e with service := { e.service with jobs := rest } }.runJob job

def settle (e : Engine) : Engine := e.service.jobs.foldl (fun e _ => e.work) e

end Engine

end PinLedger
