import PinLedger.Run.Work
import PinLedger.Site
import PinLedger.Task.Tracker

/-!
# PinLedger.Service.Basic

A maintenance service and the admission of its runs. A run is admitted when none is under way in the
service and a session can take the lock; it then waits for the worker with that session.

* `Service` — the registry, the tracker and the jobs that wait
* `Engine` — a service at its site
* `Engine.create` — a service whose registry has been read
* `Engine.start` — the admission of a run
-/

namespace PinLedger

structure RunSettings where
  window : Window
  batchSize : Nat
  lockKey : Int
  mapping : MappingSource

/-- A run that was admitted. -/
structure Job where
  task : TaskId
  kind : TaskKind
  /-- It holds the lock. -/
  session : SessionId
deriving DecidableEq, Repr

structure Service where
  settings : RunSettings
  /-- The registry that runs plan with. -/
  registry : Registry
  tracker : Tracker := {}
  /-- The jobs that wait for the worker, oldest first. -/
  jobs : List Job := []
  /-- The worker takes no more jobs. -/
  stopped : Bool := false

/-- A service at its site, and what it has logged. -/
structure Engine where
  service : Service
  site : Site
  log : List Warning := []

/-- Why a run is not admitted. -/
inductive Refusal where
  /-- One is under way in the service. -/
  | running
  /-- Another session has the lock. -/
  | locked
  /-- The store is in trouble. -/
  | trouble (t : Trouble)
  /-- There is no worker. -/
  | stopped
deriving DecidableEq, Repr

namespace Engine

/-- A service whose registry has been read, and what is to be said about its mapping. -/
def create (settings : RunSettings) (site : Site) : Except CatalogError Engine × List Warning :=
  let (registry, ws) := site.readRegistry settings.mapping
  (registry.map fun registry => { service := { settings, registry }, site }, ws)

def warn (e : Engine) (ws : List Warning) : Engine := { e with log := e.log ++ ws }

def withStore (e : Engine) (store : Store) : Engine := { e with site := { e.site with store } }

/-- Ends a session, and frees the locks that it holds. -/
def dropSession (e : Engine) (session : SessionId) : Engine :=
  e.withStore (e.site.store.dropSession session)

def failTask (e : Engine) (task : TaskId) (failure : String) : Engine :=
  let (tracker, ws) := e.service.tracker.fail task failure
  { e with service := { e.service with tracker }, log := e.log ++ ws }

def completeTask (e : Engine) (task : TaskId) (summary : RunSummary) : Engine :=
  let (tracker, ws) := e.service.tracker.complete task summary
  { e with service := { e.service with tracker }, log := e.log ++ ws }

/-! ### Admission -/

/-- Lets a new session take the lock, or drops it. -/
def takeLock (e : Engine) (session : SessionId) : Except Refusal SessionId × Engine :=
  match e.site.outages.onLock with
  | some t => (.error (.trouble t), e.dropSession session)
  | none =>
    let (taken, store) := e.site.store.tryLock session e.service.settings.lockKey
    let e := e.withStore store
    if taken then (.ok session, e) else (.error .locked, e.dropSession session)

/-- A new session that holds the lock. -/
def acquire (e : Engine) : Except Refusal SessionId × Engine :=
  match e.site.outages.onOpen with
  | some t => (.error (.trouble t), e)
  | none =>
    match e.site.store.openSession with
    | .error err => (.error (.trouble (.error err)), e)
    | .ok (session, store) => (e.withStore store).takeLock session

/-- Begins a task with the session that holds its lock, and hands it to the worker. -/
def submit (e : Engine) (kind : TaskKind) (session : SessionId) : Except Refusal TaskId × Engine :=
  let (task, tracker) := e.service.tracker.begin kind
  let e := { e with service := { e.service with tracker } }
  if e.service.stopped then
    (.error .stopped, (e.dropSession session).failTask task "pinning worker stopped")
  else
    (.ok task, { e with service := {
      e.service with jobs := e.service.jobs ++ [⟨task, kind, session⟩] } })

def start (e : Engine) (kind : TaskKind) : Except Refusal TaskId × Engine :=
  if e.service.tracker.isRunning then (.error .running, e)
  else
    match e.acquire with
    | (.error r, e) => (.error r, e)
    | (.ok session, e) => e.submit kind session

end Engine

end PinLedger
