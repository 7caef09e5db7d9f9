import PinLedger.Proofs.Run.Faults
import PinLedger.Proofs.Service.Breakdown
import PinLedger.Proofs.Service.Execution
import PinLedger.Proofs.Service.Remapping

/-!
# PinLedger.Proofs.Service.Verdict

The status of a task tells the truth about the store. A run of which nobody disturbs the data leaves
them as they were, unless its task is completed; then all statements of all plans have been carried
out, and none has been forgotten in a queue.

* `Engine.Lives` — a service in the course of its life
* `Engine.Idle`, `Lives.idle` — no job waits unless a task is running, and then one
* `Engine.Loads` — what a run is going to do, by its kind
* `service_runJob` — what a job does to the service
* `work_of_failure`, `work_of_success` — the two ways in which a run ends
* `status_truthful` — the status, the data and the queues at the end of a job
-/

namespace PinLedger

namespace Engine

/-- A service in the course of its life. What it does not do itself may happen to its site, at any
time. -/
inductive Lives : Engine → Prop
  | created {settings : RunSettings} {site : Site} {e : Engine} {ws : List Warning}
      (h : create settings site = (.ok e, ws)) : Lives e
  | elsewhere {e : Engine} (h : Lives e) (site : Site) : Lives { e with site }
  | start {e : Engine} (h : Lives e) (kind : TaskKind) : Lives (e.start kind).2
  | work {e : Engine} (h : Lives e) : Lives e.work

/-- No job waits, or one does and its task is running. -/
def Idle (e : Engine) : Prop :=
  e.service.jobs = [] ∨ e.service.tracker.isRunning = true ∧ ∃ job, e.service.jobs = [job]

/-- What a run of this kind is going to do: its registry, the views of the page in their order, and
its watermark. -/
inductive Loads (e : Engine) : TaskKind → Load → Prop
  | reset {registry : Registry} {views : List ParsedView} {latest : Option Instant}
      (hread : (e.site.readRegistry e.service.settings.mapping).1 = .ok registry)
      (hfetch : e.site.fetch none = .ok (views, latest)) :
      Loads e .reset { fresh := true, registry, views, watermark := latest }
  | incremental {views : List ParsedView} {latest : Option Instant}
      (hfetch : e.site.fetch e.site.store.data.lastRun = .ok (views, latest)) :
      Loads e .incremental {
        fresh := false
        registry := e.service.registry
        views
        watermark := laterMark e.site.store.data.lastRun latest }

variable {e e' : Engine} {kind : TaskKind} {task : TaskId} {l : Load} {sum : RunSummary}

theorem loads_of_load (h : e.load kind = (.ok l, e')) : e.Loads kind l := by
  unfold load at h
  rcases hb : e.begin kind with ⟨request, e₁⟩
  obtain ⟨hsite, _⟩ := begin_frame hb
  rw [hb] at h
  cases request with
  | error err => cases h
  | ok request =>
    obtain ⟨hgather, rfl⟩ := Prod.mk.inj h
    obtain ⟨⟨views, latest⟩, hfetch, rfl⟩ := gather_eq_ok hgather
    rw [hsite] at hfetch
    cases request with
    | all registry =>
      obtain ⟨rfl, hread, _⟩ := of_begin hb
      exact .reset hread hfetch
    | since mark =>
      obtain ⟨rfl, rfl, rfl⟩ := of_begin hb
      exact .incremental hfetch

/-- To take a job changes nothing about what its run is going to do. -/
theorem Loads.of_dequeue (h : e.dequeue.Loads kind l) : e.Loads kind l := by
  cases h with
  | reset hread hfetch => exact .reset hread hfetch
  | incremental hfetch => exact .incremental hfetch

/-- A run that is committed leaves nothing waiting, and has discarded nothing. -/
theorem spent_of_commit (h : e.commit l = (.ok sum, e')) : (e.outcome l).workspace.Spent := by
  have htrans := onTransaction_of_commit h
  have hresult : (e.outcome l).result = .ok sum := by
    rw [commit_eq, htrans] at h
    exact runResult_eq_ok (Prod.mk.inj h).1
  unfold outcome Load.work at hresult ⊢
  rcases hexec : (if l.fresh then Work.rebuild l.registry e.service.settings.window l.views l.watermark
      else Work.update l.registry e.service.settings.window l.views l.watermark).exec
    (.start e.site.store.data e.site.store.faults e.service.settings.batchSize
      e.service.settings.batchSize) with ⟨r, s'⟩
  rw [Store.transaction_of_exec hexec] at hresult ⊢
  cases hresult
  cases hfresh : l.fresh
  · simp only [hfresh, Bool.false_eq_true, if_false] at hexec
    exact spent_of_update rfl hexec
  · simp only [hfresh, if_true] at hexec
    exact spent_of_rebuild rfl hexec

/-! ### Admission -/

theorem service_of_acquire {r : Except Refusal SessionId} (h : e.acquire = (r, e')) :
    e'.service = e.service := by
  rw [acquire_eq] at h
  rcases hconnect : e.connect with ⟨r₁, e₁⟩
  rw [hconnect] at h
  cases r₁ with
  | error refusal =>
    cases h
    rw [of_connect_error hconnect]
  | ok session =>
    obtain ⟨_, rfl⟩ := of_connect_ok hconnect
    cases r with
    | error refusal =>
      rw [of_takeLock_error h]
      rfl
    | ok session' =>
      obtain ⟨_, _, rfl⟩ := of_takeLock_ok h
      rfl

/-- Whoever is admitted finds no task running, and leaves one with its job. -/
theorem of_start_ok (h : e.start kind = (.ok task, e')) :
    e.service.tracker.isRunning = false ∧ ∃ session,
      e'.service = { e.service with
        tracker := (e.service.tracker.begin kind).2
        jobs := e.service.jobs ++ [⟨task, kind, session⟩] } ∧
      (e.service.tracker.begin kind).1 = task := by
  unfold start at h
  cases hrun : e.service.tracker.isRunning with
  | true =>
    rw [hrun] at h
    cases h
  | false =>
    rw [hrun] at h
    simp only [Bool.false_eq_true, if_false] at h
    rcases hacquire : e.acquire with ⟨r, e₁⟩
    have hservice := service_of_acquire hacquire
    rw [hacquire] at h
    cases r with
    | error refusal => cases h
    | ok session =>
      rw [← hservice]
      simp only [submit_eq, enqueue] at h
      split at h
      · cases h
      · cases h
        exact ⟨rfl, session, rfl, rfl⟩

/-- Whoever is refused hands over no job. -/
theorem of_start_error {r : Refusal} (h : e.start kind = (.error r, e')) :
    e'.service.jobs = e.service.jobs ∧
      (e.service.tracker.isRunning = true → e' = e) := by
  unfold start at h
  cases hrun : e.service.tracker.isRunning with
  | true =>
    rw [hrun] at h
    cases h
    exact ⟨rfl, fun _ => rfl⟩
  | false =>
    refine ⟨?_, nofun⟩
    rw [hrun] at h
    simp only [Bool.false_eq_true, if_false] at h
    rcases hacquire : e.acquire with ⟨r₁, e₁⟩
    have hservice := service_of_acquire hacquire
    rw [hacquire] at h
    cases r₁ with
    | error refusal =>
      cases h
      rw [hservice]
    | ok session =>
      rw [← hservice]
      simp only [submit_eq, enqueue] at h
      split at h
      · cases h
        rfl
      · cases h

/-! ### Jobs -/

/-- The service when a job has ended in this way. -/
def concluded (s : Service) (task : TaskId) : Except RunError RunSummary → Service
  | .ok sum => { s with tracker := (s.tracker.complete task sum).1 }
  | .error (.catalog (.breakdown _)) => { s with jobs := [], stopped := true }
  | .error err => { s with tracker := (s.tracker.fail task err.message).1 }

theorem service_release (e : Engine) (session : SessionId) :
    (e.release session).service = e.service := by
  obtain ⟨store, log, hback, _⟩ := giveBack_frame e session
  rw [release_eq, hback]
  rfl

theorem service_stop (e : Engine) (session : SessionId) :
    (e.stop session).service = { e.service with jobs := [], stopped := true } := by
  have hdrop : ∀ (jobs : List Job) (e : Engine),
      (jobs.foldl (fun e job => e.dropSession job.session) e).service = e.service := by
    intro jobs
    induction jobs with
    | nil => exact fun _ => rfl
    | cons job jobs ih => exact fun e => ih (e.dropSession job.session)
  unfold stop
  simp only [hdrop]
  rfl

theorem service_runJob (e : Engine) (job : Job) :
    (e.runJob job).service =
      concluded (e.perform job.kind).2.service job.task (e.perform job.kind).1 := by
  unfold runJob
  rcases e.perform job.kind with ⟨r, e'⟩
  have hrelease : ∀ r, ((e'.release job.session).conclude job.task r).service =
      (e'.conclude job.task r).service := by
    intro r
    have hservice := service_release e' job.session
    cases r with
    | error err =>
      simp only [conclude, failTask, hservice]
    | ok sum =>
      simp only [conclude, completeTask, hservice]
  rcases r with err | sum
  · rcases err with err | err | err | _
    · exact hrelease _
    · exact hrelease _
    · cases err with
      | mappingFile path => exact hrelease _
      | lookup layer text => exact hrelease _
      | breakdown text => exact service_stop e' job.session
    · rfl
  · exact hrelease _

theorem jobs_concluded (s : Service) (task : TaskId) (r : Except RunError RunSummary)
    (h : s.jobs = []) : (concluded s task r).jobs = [] := by
  rcases r with err | sum
  · rcases err with err | err | err | _
    · exact h
    · exact h
    · cases err with
      | mappingFile path => exact h
      | lookup layer text => exact h
      | breakdown text => rfl
    · exact h
  · exact h

/-- A run leaves the tracker and the jobs of the service alone. -/
theorem frame_perform (e : Engine) (kind : TaskKind) :
    (e.perform kind).2.service.tracker = e.service.tracker ∧
      (e.perform kind).2.service.jobs = e.service.jobs := by
  obtain ⟨_, registry, hservice, _⟩ := begin_frame (Prod.ext rfl rfl :
    e.begin kind = ((e.begin kind).1, (e.begin kind).2))
  rw [service_of_perform, hservice]
  exact ⟨rfl, rfl⟩

theorem Lives.idle (h : e.Lives) : e.Idle := by
  induction h with
  | created h =>
    obtain ⟨registry, _, rfl⟩ := of_create h
    exact .inl rfl
  | elsewhere h site ih => exact ih
  | @start e h kind ih =>
    rcases hstart : e.start kind with ⟨r, e'⟩
    cases r with
    | error r =>
      obtain ⟨hjobs, hsame⟩ := of_start_error hstart
      rcases ih with hnone | ⟨hrun, hone⟩
      · exact .inl (hjobs.trans hnone)
      · rw [hsame hrun]
        exact .inr ⟨hrun, hone⟩
    | ok task =>
      obtain ⟨hrest, session, hservice, _⟩ := of_start_ok hstart
      rcases ih with hnone | ⟨hrun, _⟩
      · right
        rw [hservice, hnone]
        exact ⟨rfl, _, rfl⟩
      · rw [hrest] at hrun
        cases hrun
  | @work e h ih =>
    left
    rcases ih with hnone | ⟨_, job, hone⟩
    · unfold Engine.work
      rw [hnone]
      exact hnone
    · rw [work_of_cons hone, service_runJob]
      refine jobs_concluded _ _ _ ((frame_perform _ _).2.trans ?_)
      unfold dequeue
      rw [hone]
      rfl

/-! ### The verdict -/

theorem finish_of_current {t : Tracker} (h : t.state.taskId = some task) (status : TaskStatus)
    (failure : Option String) (summary : Option RunSummary) :
    (t.finish task status failure summary).1.state =
      { t.state with status, finishedAt := some .clock, failure, summary } := by
  unfold Tracker.finish
  rw [if_pos h]

/-- A run that fails ends its task as failed, unless the catalog has broken down. -/
theorem concluded_error {s : Service} (h : s.tracker.state.taskId = some task)
    (hstatus : s.tracker.state.status = .running) (err : RunError) :
    (concluded s task (.error err)).tracker.state.taskId = some task ∧
      (concluded s task (.error err)).tracker.state.status ≠ .completed ∧
      ((∀ text, err ≠ .catalog (.breakdown text)) →
        (concluded s task (.error err)).tracker.state.status = .failed) := by
  have hfailed : (s.tracker.fail task err.message).1.state.taskId = some task ∧
      (s.tracker.fail task err.message).1.state.status = .failed := by
    unfold Tracker.fail
    rw [finish_of_current h]
    exact ⟨h, rfl⟩
  have hend : (s.tracker.fail task err.message).1.state.taskId = some task ∧
      (s.tracker.fail task err.message).1.state.status ≠ .completed ∧
      ((∀ text, err ≠ .catalog (.breakdown text)) →
        (s.tracker.fail task err.message).1.state.status = .failed) := by
    refine ⟨hfailed.1, ?_, fun _ => hfailed.2⟩
    rw [hfailed.2]
    decide
  rcases err with err | err | err | _
  · exact hend
  · exact hend
  · cases err with
    | mappingFile path => exact hend
    | lookup layer text => exact hend
    | breakdown text =>
      refine ⟨h, ?_, fun hnot => absurd rfl (hnot text)⟩
      show s.tracker.state.status ≠ .completed
      rw [hstatus]
      decide
  · exact hend

/-- Whoever is admitted finds no job, and leaves one with its task running. -/
theorem Lives.taken (hlives : e.Lives) (h : e.start kind = (.ok task, e')) :
    e'.service.settings = e.service.settings ∧
      (∃ session, e'.service.jobs = [⟨task, kind, session⟩]) ∧
      e'.service.tracker.state.taskId = some task ∧
      e'.service.tracker.state.status = .running := by
  obtain ⟨hrest, session, hservice, htask⟩ := of_start_ok h
  have hnone : e.service.jobs = [] := by
    refine hlives.idle.resolve_right ?_
    rintro ⟨hrun, _⟩
    rw [hrest] at hrun
    cases hrun
  rw [hservice, hnone]
  exact ⟨rfl, ⟨session, rfl⟩, congrArg some htask, rfl⟩

/-- A worker that takes a job ends its task. -/
theorem service_work {job : Job} {rest : List Job} {r : Except RunError RunSummary}
    (hjobs : e.service.jobs = job :: rest) (hperform : e.dequeue.perform job.kind = (r, e')) :
    e.work.service = concluded e'.service job.task r ∧
      e'.service.tracker = e.service.tracker := by
  have hsame := (frame_perform e.dequeue job.kind).1
  rw [hperform] at hsame
  refine ⟨?_, hsame⟩
  rw [work_of_cons hjobs, service_runJob, hperform]

/-- A run that fails leaves the data, and ends its task as failed unless the catalog breaks down. -/
theorem work_of_failure {job : Job} {rest : List Job} {err : RunError}
    (hjobs : e.service.jobs = job :: rest)
    (hcurrent : e.service.tracker.state.taskId = some job.task)
    (hrunning : e.service.tracker.state.status = .running)
    (hperform : e.dequeue.perform job.kind = (.error err, e')) :
    e.work.service.tracker.state.taskId = some job.task ∧
      e.work.service.tracker.state.status ≠ .completed ∧
      (e.site.outages.catalog ≠ some .breakdown →
        e.work.service.tracker.state.status = .failed) ∧
      e.work.site.store.data = e.site.store.data := by
  obtain ⟨hservice, htracker⟩ := service_work hjobs hperform
  rw [← htracker] at hcurrent hrunning
  obtain ⟨htask, hnot, hfailed⟩ := concluded_error hcurrent hrunning err
  rw [hservice]
  refine ⟨htask, hnot, ?_, ?_⟩
  · intro hcatalog
    refine hfailed ?_
    rintro text rfl
    have hbroken : e.dequeue.site.outages.catalog = some .breakdown :=
      breakdown_of_perform (congrArg Prod.fst hperform)
    exact hcatalog hbroken
  · have hsame : e'.site.store.data = e.dequeue.site.store.data := data_of_perform_error hperform
    exact (Core.mk.inj (core_work_of_cons hjobs hperform)).2.2.2.trans hsame

/-- A run that completes has carried out all its statements, and completes its task. -/
theorem work_of_success {job : Job} {rest : List Job}
    (hjobs : e.service.jobs = job :: rest)
    (hcurrent : e.service.tracker.state.taskId = some job.task)
    (hperform : e.dequeue.perform job.kind = (.ok sum, e')) :
    e.work.service.tracker.state.taskId = some job.task ∧
      e.work.service.tracker.state.status = .completed ∧
      ∃ l plans, e.Loads job.kind l ∧
        l.Executes e.service.settings.window plans e.site.store.data e.work.site.store.data ∧
        (e.outcome l).workspace.Spent ∧
        e.work.service.tracker.state.summary =
          some { plans.foldl (fun (s : RunSummary) p => s.record p.case) {} with
            pinStatements := (l.resets ++ pinStatements plans).length
            viewStatements := (viewStatements plans).length
            watermark := l.watermark } := by
  obtain ⟨hservice, htracker⟩ := service_work hjobs hperform
  rw [← htracker] at hcurrent
  have hstate : (concluded e'.service job.task (.ok sum)).tracker.state =
      { e'.service.tracker.state with
        status := .completed, finishedAt := some .clock, failure := none, summary := some sum } :=
    finish_of_current hcurrent .completed none (some sum)
  obtain ⟨l, e₁, hload, _, hpost⟩ := posted_of_perform hperform
  obtain ⟨hsite, hsettings⟩ := load_frame hload
  obtain ⟨hexecutes, hsum⟩ := Load.executes_of_post hpost
  rw [hservice, hstate, (Core.mk.inj (core_work_of_cons hjobs hperform)).2.2.2]
  have hcommit : e₁.commit l = (.ok sum, e') := by
    rw [perform_eq_load, hload] at hperform
    exact hperform
  have hspent := spent_of_commit hcommit
  unfold outcome at hspent
  rw [hsite, hsettings] at hspent
  exact ⟨hcurrent, rfl, l, _, (loads_of_load hload).of_dequeue, hexecutes, hspent, congrArg some hsum⟩

/-- **The status of a task tells the truth about the store.** A service has lived through anything, and
a run is admitted. Until it ends, its site may change in any way, except that nobody else writes to the
data. If its task is completed, all statements of the run have been carried out in their order, nothing
has been left in a queue, and the summary counts them. If not, the data are those at admission. The
task ends, as failed or as completed, unless the catalog breaks down. -/
theorem status_truthful {e₁ e₂ : Engine} (hlives : e.Lives)
    (hbegun : e.start kind = (.ok task, e₁)) (hservice : e₂.service = e₁.service)
    (hdata : e₂.site.store.data = e.site.store.data) :
    e₂.work.service.tracker.state.taskId = some task ∧
      (e₂.work.service.tracker.state.status ≠ .completed →
        e₂.work.site.store.data = e.site.store.data) ∧
      (e₂.work.service.tracker.state.status = .completed → ∃ l plans, e₂.Loads kind l ∧
        l.Executes e.service.settings.window plans e.site.store.data e₂.work.site.store.data ∧
        (e₂.outcome l).workspace.Spent ∧
        e₂.work.service.tracker.state.summary =
          some { plans.foldl (fun (s : RunSummary) p => s.record p.case) {} with
            pinStatements := (l.resets ++ pinStatements plans).length
            viewStatements := (viewStatements plans).length
            watermark := l.watermark }) ∧
      (e₂.site.outages.catalog ≠ some .breakdown →
        e₂.work.service.tracker.state.status = .failed ∨
          e₂.work.service.tracker.state.status = .completed) := by
  obtain ⟨hsettings, ⟨session, hjobs⟩, hcurrent, hrunning⟩ := hlives.taken hbegun
  rw [← hservice] at hsettings hjobs hcurrent hrunning
  rw [← hdata]
  rcases hperform : e₂.dequeue.perform kind with ⟨r, e'⟩
  cases r with
  | error err =>
    obtain ⟨htask, hnot, hfailed, hsame⟩ := work_of_failure hjobs hcurrent hrunning hperform
    exact ⟨htask, fun _ => hsame, fun h => absurd h hnot, fun h => .inl (hfailed h)⟩
  | ok sum =>
    obtain ⟨htask, hcompleted, hdone⟩ := work_of_success hjobs hcurrent hperform
    rw [hsettings] at hdone
    exact ⟨htask, fun h => absurd hcompleted h, fun _ => hdone, fun _ => .inr hcompleted⟩

end Engine

/-- The feed has a view. -/
def waiting : Engine := { keeper with site := { annex with feed := { views := [guest false 40] } } }

/-- A reset has been admitted, and so many more pin batches succeed before one fails. -/
def tried (batchesLeft : Option Nat) : Engine :=
  { (waiting.start .reset).2 with site := { (waiting.start .reset).2.site with
    store := { (waiting.start .reset).2.site.store with faults := { batchesLeft } } } }

/-- A reset whose second batch fails leaves the data. One whose batches succeed carries out its plan. -/
theorem status_truthful_tried :
    ((tried (some 1)).work.service.tracker.state.status = .failed ∧
        (tried (some 1)).work.site.store.data = waiting.site.store.data) ∧
      (tried none).work.service.tracker.state.status = .completed ∧
        ∃ l plans, (tried none).Loads .reset l ∧
          l.Executes charted.window plans waiting.site.store.data
            (tried none).work.site.store.data ∧
          ((tried none).outcome l).workspace.Spent := by
  have hfacts : (waiting.start .reset).1.toOption = some (.issued 1) ∧
      (tried (some 1)).work.service.tracker.state.status = .failed ∧
      (tried none).work.service.tracker.state.status = .completed := by decide +kernel
  obtain ⟨hadmitted, hfailed, hcompleted⟩ := hfacts
  have hlives : waiting.Lives := .elsewhere (.created create_keeper) _
  have hbegun : waiting.start .reset = (.ok (.issued 1), (waiting.start .reset).2) := by
    rw [← ok_of_toOption hadmitted]
  have hdata : (waiting.start .reset).2.site.store.data = waiting.site.store.data :=
    (Core.mk.inj (Engine.core_start waiting .reset)).2.2.2
  have hnot : (tried (some 1)).work.service.tracker.state.status ≠ .completed := by
    rw [hfailed]
    decide
  have htried : ∀ batchesLeft, (tried batchesLeft).service = (waiting.start .reset).2.service ∧
      (tried batchesLeft).site.store.data = waiting.site.store.data := fun _ => ⟨rfl, hdata⟩
  obtain ⟨_, hkept, _⟩ :=
    Engine.status_truthful hlives hbegun (htried (some 1)).1 (htried (some 1)).2
  obtain ⟨_, _, hdone, _⟩ :=
    Engine.status_truthful hlives hbegun (htried none).1 (htried none).2
  obtain ⟨l, plans, hloads, hexecutes, hspent, _⟩ := hdone hcompleted
  exact ⟨⟨hfailed, hkept hnot⟩, hcompleted, l, plans, hloads, hexecutes, hspent⟩

end PinLedger
