import PinLedger.Proofs.Service.Stance

/-!
# PinLedger.Proofs.Service.Admission

What one step of a service does to the lock, to the tracker and to its jobs, whatever the others
have done since its last step.

* `step_call`, `step_lock` and so on — each of the steps
* `step` — any step takes a stance to a stance, and touches no lock of anybody else
* `asks_frame` — until a run has the lock, nothing has been done for it
-/

namespace PinLedger

/-! ### Calls that are answered or not -/

namespace Engine

variable {e e' : Engine} {a b : SessionId} {r : Refusal}

theorem of_connect_error (h : e.connect = (.error r, e')) : e' = e := by
  unfold connect at h
  cases ho : e.site.outages.onOpen with
  | some t =>
    rw [ho] at h
    cases h
    rfl
  | none =>
    rw [ho] at h
    cases hopen : e.site.store.openSession with
    | error err =>
      rw [hopen] at h
      cases h
      rfl
    | ok opened =>
      rw [hopen] at h
      cases h

theorem of_connect_ok (h : e.connect = (.ok a, e')) :
    a = e.site.store.nextSession ∧
      e' = e.withStore { e.site.store with nextSession := e.site.store.nextSession + 1 } := by
  unfold connect at h
  cases ho : e.site.outages.onOpen with
  | some t =>
    rw [ho] at h
    cases h
  | none =>
    rw [ho] at h
    unfold Store.openSession at h
    cases hreach : e.site.store.faults.unreachable with
    | true =>
      rw [hreach] at h
      cases h
    | false =>
      rw [hreach] at h
      cases h
      exact ⟨rfl, rfl⟩

/-- A session that cannot have the lock is ended. -/
theorem of_takeLock_error (h : e.takeLock a = (.error r, e')) : e' = e.dropSession a := by
  unfold takeLock at h
  cases ho : e.site.outages.onLock with
  | some t =>
    rw [ho] at h
    cases h
    rfl
  | none =>
    rw [ho] at h
    cases htaken : (e.site.store.tryLock a e.service.settings.lockKey).1 with
    | true =>
      simp only [htaken, if_true] at h
      cases h
    | false =>
      simp only [htaken, Store.tryLock_of_false htaken, Bool.false_eq_true, if_false] at h
      cases h
      rfl

theorem of_takeLock_ok (h : e.takeLock a = (.ok b, e')) :
    b = a ∧ (e.site.store.tryLock a e.service.settings.lockKey).1 = true ∧
      e' = e.withStore (e.site.store.tryLock a e.service.settings.lockKey).2 := by
  unfold takeLock at h
  cases ho : e.site.outages.onLock with
  | some t =>
    rw [ho] at h
    cases h
  | none =>
    rw [ho] at h
    cases htaken : (e.site.store.tryLock a e.service.settings.lockKey).1 with
    | true =>
      simp only [htaken, if_true] at h
      cases h
      exact ⟨rfl, rfl, rfl⟩
    | false =>
      simp only [htaken, Bool.false_eq_true, if_false] at h
      cases h

/-- Giving the lock back changes nothing but that the session may hold it no more. -/
theorem giveBack_frame (e : Engine) (a : SessionId) :
    ∃ store log, e.giveBack a = { e.withStore store with log } ∧
      store.data = e.site.store.data ∧ store.nextSession = e.site.store.nextSession ∧
      (∀ b k, b ≠ a → (store.Holds b k ↔ e.site.store.Holds b k)) ∧
      (∀ k, store.Holds a k → e.site.store.Holds a k) := by
  have hsame : ∀ ws, ∃ store log, e.warn ws = { e.withStore store with log } ∧
      store.data = e.site.store.data ∧ store.nextSession = e.site.store.nextSession ∧
      (∀ b k, b ≠ a → (store.Holds b k ↔ e.site.store.Holds b k)) ∧
      (∀ k, store.Holds a k → e.site.store.Holds a k) := by
    intro ws
    exact ⟨e.site.store, e.log ++ ws, rfl, rfl, rfl, fun _ _ _ => Iff.rfl, fun _ hk => hk⟩
  unfold giveBack
  rcases e.site.outages.onUnlock with _ | err | text
  · by_cases hrefused : e.site.outages.unlock = some .refusal
    · simp only [hrefused, if_true]
      exact hsame _
    · simp only [hrefused, if_false]
      refine ⟨_, _, rfl, Store.data_unlock _ _ _, Store.nextSession_unlock _ _ _, ?_, ?_⟩
      · intro b k hb
        rw [Store.holds_unlock]
        exact and_iff_left fun h => hb h.1
      · intro k hk
        exact (Store.holds_unlock.1 hk).1
  · exact hsame _
  · exact hsame _

/-- The end of the current task. -/
theorem conclude_frame {task : TaskId} (h : e.service.tracker.state.taskId = some task)
    (result : Except RunError RunSummary) :
    (e.conclude task result).site = e.site ∧
      ∃ tracker, (e.conclude task result).service = { e.service with tracker } ∧
        tracker.isRunning = false := by
  have hfinish : ∀ status failure summary, status ≠ .running →
      (e.service.tracker.finish task status failure summary).1.isRunning = false := by
    intro status failure summary hstatus
    unfold Tracker.finish
    rw [if_pos h]
    exact decide_eq_false hstatus
  cases result with
  | ok sum =>
    exact ⟨rfl, (e.service.tracker.complete task sum).1, rfl, hfinish _ _ _ (by decide)⟩
  | error err =>
    exact ⟨rfl, (e.service.tracker.fail task err.message).1, rfl, hfinish _ _ _ (by decide)⟩

/-- A worker without jobs takes nothing but its session with it. -/
theorem stop_of_nil (h : e.service.jobs = []) :
    e.stop a = { e.dropSession a with
      service := { e.service with jobs := [], stopped := true } } := by
  have hjobs : (e.dropSession a).service.jobs = [] := h
  simp only [stop, hjobs, List.foldl_nil]
  rfl

end Engine

namespace Post

variable {key : Int} {p q : Post} {t t' : Stance} {a : SessionId}

/-! ### Steps of an admission -/

theorem Takes.move (ht : p.Takes key t)
    (hservice : ∃ registry, q.service = { p.service with registry })
    (hgate : q.gate = t'.gate) (hduty : q.duty = t'.duty) (hjobs : t'.jobs = t.jobs)
    (hjob : t'.job? = t.job?) (hstopped : t'.stopped = t.stopped) : q.Takes key t' := by
  obtain ⟨registry, hservice⟩ := hservice
  refine ⟨hgate, ?_, hduty, ?_, ?_, ?_, ?_⟩
  · rw [hservice, hjobs]
    exact ht.jobs
  · rw [hservice]
    exact ht.lockKey
  · rw [hservice, hstopped]
    exact ht.stopped
  · rw [hservice, hjob, hstopped]
    exact ht.running
  · rw [hservice, hjob]
    exact ht.current

theorem step_call (ht : p.Takes key t) (hs : Backed key p.store t) (kind : TaskKind) :
    ∃ t', Step key p (p.call kind) t t' := by
  unfold call
  split
  · rename_i hgate
    cases hrun : p.service.tracker.isRunning with
    | true => exact ⟨t, .stay ht hs rfl⟩
    | false =>
      have hrest : t = .resting := Stance.eq_resting (ht.gate.symm.trans hgate)
        (ht.running.symm.trans hrun)
      subst hrest
      have ht' : Takes key { p with gate := .checked kind } (.asking kind) :=
        ht.move ⟨_, rfl⟩ rfl ht.duty rfl rfl rfl
      exact ⟨.asking kind, .quiet ht' hs rfl rfl rfl nofun rfl⟩
  · exact ⟨t, .stay ht hs rfl⟩

theorem step_connect (ht : p.Takes key t) (hs : Backed key p.store t)
    (hissued : ∀ a k, p.store.Holds a k → a < p.store.nextSession) :
    ∃ t', Step key p p.connect t t' := by
  unfold connect
  split
  · rename_i kind hgate
    have hask : t = .asking kind := Stance.of_gate_checked (ht.gate.symm.trans hgate)
    subst hask
    rcases hopen : p.engine.connect with ⟨r, e⟩
    cases r with
    | error r =>
      have he : e = p.engine := Engine.of_connect_error hopen
      subst he
      have ht' : Takes key { p with gate := .free } .resting :=
        ht.move ⟨_, rfl⟩ rfl ht.duty rfl rfl rfl
      exact ⟨.resting, .quiet ht' hs rfl rfl rfl nofun rfl⟩
    | ok session =>
      obtain ⟨rfl, rfl⟩ := Engine.of_connect_ok hopen
      refine ⟨.opened kind p.store.nextSession, ?_, ⟨?_, ?_, ?_, ?_⟩, ?_, ?_, ?_, ?_, ?_⟩
      · exact ht.move ⟨_, rfl⟩ rfl ht.duty rfl rfl rfl
      · intro a ha
        cases ha
      · intro a k ha hk
        cases ha
        exact absurd (hissued _ k hk) (Nat.lt_irrefl _)
      · intro kind' a h k hk
        cases h
        exact absurd (hissued _ k hk) (Nat.lt_irrefl _)
      · intro m hm
        cases hm
      · intro b k _
        exact Iff.rfl
      · intro a ha
        cases ha
        exact .inr ⟨rfl, Nat.lt_succ_self _⟩
      · exact Nat.le_succ _
      · intro a ha
        cases ha
      · intro _
        rfl
  · exact ⟨t, .stay ht hs rfl⟩

theorem step_lock (ht : p.Takes key t) (hs : Backed key p.store t) :
    ∃ t', Step key p p.lock t t' := by
  unfold lock
  split
  · rename_i kind session hgate
    have hopen : t = .opened kind session := Stance.of_gate_opened (ht.gate.symm.trans hgate)
    subst hopen
    rcases htake : p.engine.takeLock session with ⟨r, e⟩
    cases r with
    | error r =>
      have he : e = p.engine.dropSession session := Engine.of_takeLock_error htake
      subst he
      have ht' : Takes key { p with engine := p.engine.dropSession session, gate := .free }
          .resting := ht.move ⟨_, rfl⟩ rfl ht.duty rfl rfl rfl
      exact ⟨.resting, .leave ht' rfl rfl rfl rfl rfl⟩
    | ok session' =>
      obtain ⟨rfl, htaken, rfl⟩ := Engine.of_takeLock_ok htake
      rw [show p.engine.service.settings.lockKey = key from ht.lockKey] at htaken ⊢
      have hholds := Store.tryLock_eq_true.1 htaken
      refine ⟨.locked kind session', ?_, ⟨?_, ?_, ?_, ?_⟩, ?_, ?_, ?_, ?_, ?_⟩
      · exact ht.move ⟨_, rfl⟩ rfl ht.duty rfl rfl rfl
      · intro a ha
        cases ha
        exact hholds
      · intro a k ha hk
        cases ha
        rcases Store.holds_tryLock.1 hk with hk | ⟨_, hk, _⟩
        · exact hs.only _ k rfl hk
        · exact hk
      · intro kind' a h
        cases h
      · intro m hm
        cases hm
      · intro b k hb
        refine Store.holds_tryLock.trans ⟨?_, .inl⟩
        rintro (hk | ⟨rfl, _, _⟩)
        · exact hk
        · exact absurd rfl hb
      · intro a ha
        exact .inl ha
      · exact Nat.le_of_eq (Store.nextSession_tryLock _ _ _).symm
      · intro a ha hne
        exact absurd ha hne
      · intro _
        exact Store.data_tryLock _ _ _
  · exact ⟨t, .stay ht hs rfl⟩

theorem step_begin (ht : p.Takes key t) (hs : Backed key p.store t) :
    ∃ t', Step key p p.begin t t' := by
  unfold begin
  split
  · rename_i kind session hgate
    have hlocked : t = .locked kind session := Stance.of_gate_locked (ht.gate.symm.trans hgate)
    subst hlocked
    refine ⟨.begun ⟨(p.service.tracker.begin kind).1, kind, session⟩,
      .quiet ⟨rfl, ht.jobs, ht.duty, ht.lockKey, ht.stopped, rfl, ?_⟩ hs rfl rfl rfl nofun rfl⟩
    intro job hjob
    cases hjob
    rfl
  · exact ⟨t, .stay ht hs rfl⟩

theorem step_send (ht : p.Takes key t) (hs : Backed key p.store t) :
    ∃ t', Step key p p.send t t' := by
  unfold send
  split
  · rename_i job hgate
    have hbegun : t = .begun job := Stance.of_gate_begun (ht.gate.symm.trans hgate)
    subst hbegun
    have hup : p.engine.service.stopped = false := ht.stopped
    have hjobs : p.engine.service.jobs ++ [job] = [job] := by
      rw [show p.engine.service.jobs = [] from ht.jobs]
      rfl
    unfold Engine.enqueue
    simp only [hup, Bool.false_eq_true, if_false]
    exact ⟨.queued job, .quiet ⟨rfl, hjobs, ht.duty, ht.lockKey, rfl, ht.running, ht.current⟩ hs
      rfl rfl rfl nofun rfl⟩
  · exact ⟨t, .stay ht hs rfl⟩

/-! ### Steps of the worker -/

theorem step_pickUp (ht : p.Takes key t) (hs : Backed key p.store t) :
    ∃ t', Step key p p.pickUp t t' := by
  cases hduty : p.duty with
  | some duty =>
    have hstay : p.pickUp = p := by
      unfold pickUp
      rw [hduty]
    rw [hstay]
    exact ⟨t, .stay ht hs rfl⟩
  | none =>
    cases hjobs : p.service.jobs with
    | nil =>
      rw [pickUp_of_nil hjobs]
      exact ⟨t, .stay ht hs rfl⟩
    | cons job rest =>
      obtain ⟨rfl, rfl⟩ := Stance.of_jobs (ht.jobs.symm.trans hjobs)
      rw [pickUp_of_cons hduty hjobs]
      have ht' : Takes key { p with
          engine := { p.engine with service := { p.service with jobs := [] } }
          duty := some ⟨job, .taken⟩ } (.working ⟨job, .taken⟩) :=
        ⟨ht.gate, rfl, rfl, ht.lockKey, ht.stopped, ht.running, ht.current⟩
      exact ⟨_, .quiet ht' hs rfl rfl rfl nofun rfl⟩

/-- A job that holds the lock goes on to its next stage, or its run has ended. -/
theorem step_stage {job : Job} {phase phase' : Phase} (ht : p.Takes key (.working ⟨job, phase⟩))
    (hs : Backed key p.store (.working ⟨job, phase⟩)) (hin : phase.inLock = true)
    (hin' : phase'.inLock = true) {e : Engine}
    (hservice : ∃ registry, e.service = { p.service with registry })
    (hlocks : e.site.store.locks = p.store.locks)
    (hnext : e.site.store.nextSession = p.store.nextSession)
    (hmark : ∀ m, phase'.mark? = some m → m = e.site.store.data.lastRun) :
    Step key p { p with engine := e, duty := some ⟨job, phase'⟩ } (.working ⟨job, phase⟩)
      (.working ⟨job, phase'⟩) := by
  have hsession : ∀ {ph : Phase}, ph.inLock = true →
      (Stance.working ⟨job, ph⟩).lock? = some job.session := by
    intro ph h
    exact if_pos h
  have ht' : Takes key { p with engine := e, duty := some ⟨job, phase'⟩ }
      (.working ⟨job, phase'⟩) := ht.move hservice ht.gate rfl rfl rfl rfl
  refine .go ht' hs hlocks hnext ?_ ?_ ?_ hmark ?_
  · rw [Stance.session_of_lock (hsession hin), Stance.session_of_lock (hsession hin')]
  · intro a ha
    rw [hsession hin, ← hsession hin']
    exact ha
  · intro kind a h
    cases h
  · intro h
    rw [hsession hin] at h
    cases h

/-- A run that breaks down leaves a service without a worker. Its task is never finished. -/
theorem takes_stranded {job : Job} {phase : Phase} (ht : p.Takes key (.working ⟨job, phase⟩))
    (text : String) {e : Engine} (hservice : ∃ registry, e.service = { p.service with registry }) :
    (p.finish job (.error (.catalog (.breakdown text)), e)).Takes key .stranded ∧
      (p.finish job (.error (.catalog (.breakdown text)), e)).store =
        e.site.store.dropSession job.session := by
  obtain ⟨registry, hservice⟩ := hservice
  have hjobs : e.service.jobs = [] := by
    rw [hservice]
    exact ht.jobs
  simp only [finish, Engine.stop_of_nil hjobs]
  refine ⟨⟨ht.gate, rfl, rfl, ?_, rfl, ?_, ?_⟩, rfl⟩
  · rw [service, hservice]
    exact ht.lockKey
  · rw [service, hservice]
    exact ht.running
  · intro job' hjob'
    cases hjob'

/-- However a run ends, its session keeps the lock or ends. -/
theorem step_finish {job : Job} {phase : Phase} (ht : p.Takes key (.working ⟨job, phase⟩))
    (hs : Backed key p.store (.working ⟨job, phase⟩)) (hin : phase.inLock = true) {e : Engine}
    {r : Except RunError RunSummary}
    (hservice : ∃ registry, e.service = { p.service with registry })
    (hlocks : e.site.store.locks = p.store.locks)
    (hnext : e.site.store.nextSession = p.store.nextSession)
    (hdata : ∀ err, r = .error err → e.site.store.data = p.store.data) :
    ∃ t', Step key p (p.finish job (r, e)) (.working ⟨job, phase⟩) t' := by
  have hsession : (Stance.working ⟨job, phase⟩).session? = some job.session :=
    Stance.session_of_lock (if_pos hin)
  have hended : Step key p { p with engine := e, duty := some ⟨job, .ended r⟩ }
      (.working ⟨job, phase⟩) (.working ⟨job, .ended r⟩) := by
    refine step_stage ht hs hin rfl hservice hlocks hnext ?_
    intro m hm
    cases hm
  have hdrop : (e.site.store.dropSession job.session).locks =
      (p.store.dropSession job.session).locks := by
    unfold Store.dropSession
    rw [hlocks]
  rcases r with err | sum
  · cases err with
    | store err => exact ⟨_, hended⟩
    | feed err => exact ⟨_, hended⟩
    | catalog err =>
      cases err with
      | mappingFile path => exact ⟨_, hended⟩
      | lookup layer text => exact ⟨_, hended⟩
      | breakdown text =>
        obtain ⟨ht', hstore⟩ := takes_stranded ht text hservice
        refine ⟨.stranded, .leave ht' hsession rfl ?_ ?_ ?_⟩
        · rw [hstore]
          exact hdrop
        · rw [hstore]
          exact hnext
        · rw [hstore]
          exact hdata _ rfl
    | lost =>
      have ht' : Takes key (p.finish job (.error .lost, e))
          (.working ⟨job, .released (.error .lost)⟩) := ht.move hservice ht.gate rfl rfl rfl rfl
      exact ⟨_, .leave ht' hsession rfl hdrop hnext (hdata _ rfl)⟩
  · exact ⟨_, hended⟩

theorem step_read (ht : p.Takes key t) (hs : Backed key p.store t) :
    ∃ t', Step key p p.read t t' := by
  unfold read
  split
  · rename_i job hduty
    have htaken : t = .working ⟨job, .taken⟩ := Stance.of_duty (ht.duty.symm.trans hduty)
    subst htaken
    rcases hbegin : p.engine.begin job.kind with ⟨r, e⟩
    obtain ⟨hsite, registry, hservice, _⟩ := Engine.begin_frame hbegin
    have hstore : e.site.store = p.store := congrArg Site.store hsite
    have hlocks := congrArg Store.locks hstore
    have hnext := congrArg Store.nextSession hstore
    cases r with
    | error err =>
      exact step_finish ht hs rfl ⟨registry, hservice⟩ hlocks hnext
        (fun _ _ => congrArg Store.data hstore)
    | ok r =>
      refine ⟨_, step_stage ht hs rfl rfl ⟨registry, hservice⟩ hlocks hnext ?_⟩
      intro m hm
      cases r with
      | all registry' => cases hm
      | since mark =>
        cases hm
        rw [hstore]
        exact (Engine.of_begin hbegin).2.1
  · exact ⟨t, .stay ht hs rfl⟩

theorem step_gather (ht : p.Takes key t) (hs : Backed key p.store t) :
    ∃ t', Step key p p.gather t t' := by
  unfold gather
  split
  · rename_i job r hduty
    have hbegun : t = .working ⟨job, .begun r⟩ := Stance.of_duty (ht.duty.symm.trans hduty)
    subst hbegun
    cases p.engine.gather r with
    | error err => exact step_finish ht hs rfl ⟨_, rfl⟩ rfl rfl (fun _ _ => rfl)
    | ok l =>
      refine ⟨.working ⟨job, .gathered r l⟩, step_stage ht hs rfl rfl ⟨_, rfl⟩ rfl rfl ?_⟩
      intro m hm
      refine hs.mark m ?_
      cases r with
      | all registry => cases hm
      | since mark => exact hm
  · exact ⟨t, .stay ht hs rfl⟩

theorem step_commit (ht : p.Takes key t) (hs : Backed key p.store t) :
    ∃ t', Step key p p.commit t t' := by
  unfold commit
  split
  · rename_i job r l hduty
    have hgathered : t = .working ⟨job, .gathered r l⟩ :=
      Stance.of_duty (ht.duty.symm.trans hduty)
    subst hgathered
    rcases hcommit : p.engine.commit l with ⟨result, e⟩
    obtain ⟨hservice, _, hlocks, hnext⟩ := Engine.commit_frame hcommit
    refine step_finish ht hs rfl ⟨p.service.registry, hservice⟩ hlocks hnext ?_
    intro err herr
    subst herr
    exact Engine.data_of_commit_error hcommit
  · exact ⟨t, .stay ht hs rfl⟩

theorem step_unlock (ht : p.Takes key t) (hs : Backed key p.store t) :
    ∃ t', Step key p p.unlock t t' := by
  unfold unlock
  split
  · rename_i job result hduty
    have hended : t = .working ⟨job, .ended result⟩ := Stance.of_duty (ht.duty.symm.trans hduty)
    subst hended
    obtain ⟨store, log, he, hdata, hnext, hothers, hmine⟩ :=
      Engine.giveBack_frame p.engine job.session
    rw [he]
    refine ⟨.working ⟨job, .unlocked result⟩, ?_, ⟨?_, ?_, ?_, ?_⟩, ?_, ?_, ?_, ?_, ?_⟩
    · exact ht.move ⟨_, rfl⟩ ht.gate rfl rfl rfl rfl
    · intro a ha
      cases ha
    · intro a k ha hk
      cases ha
      exact hs.only _ k rfl (hmine k hk)
    · intro kind a h
      cases h
    · intro m hm
      cases hm
    · intro b k hb
      exact hothers b k fun h => hb (congrArg some h.symm)
    · intro a ha
      exact .inl ha
    · exact Nat.le_of_eq hnext.symm
    · intro a ha hne
      exact absurd ha hne
    · intro _
      exact hdata
  · exact ⟨t, .stay ht hs rfl⟩

theorem step_drop (ht : p.Takes key t) (hs : Backed key p.store t) :
    ∃ t', Step key p p.drop t t' := by
  unfold drop
  split
  · rename_i job result hduty
    have hunlocked : t = .working ⟨job, .unlocked result⟩ :=
      Stance.of_duty (ht.duty.symm.trans hduty)
    subst hunlocked
    have ht' : Takes key { p with
        engine := p.engine.dropSession job.session
        duty := some ⟨job, .released result⟩ } (.working ⟨job, .released result⟩) :=
      ht.move ⟨_, rfl⟩ ht.gate rfl rfl rfl rfl
    exact ⟨_, .leave ht' rfl rfl rfl rfl rfl⟩
  · exact ⟨t, .stay ht hs rfl⟩

theorem step_conclude (ht : p.Takes key t) (hs : Backed key p.store t) :
    ∃ t', Step key p p.conclude t t' := by
  unfold conclude
  split
  · rename_i job result hduty
    have hreleased : t = .working ⟨job, .released result⟩ :=
      Stance.of_duty (ht.duty.symm.trans hduty)
    subst hreleased
    obtain ⟨hsite, tracker, hservice, hidle⟩ :=
      Engine.conclude_frame (ht.current job rfl) result
    have hstore : (p.engine.conclude job.task result).site.store = p.store :=
      congrArg Site.store hsite
    have ht' : Takes key { p with engine := p.engine.conclude job.task result, duty := none }
        .resting := by
      refine ⟨ht.gate, ?_, rfl, ?_, ?_, ?_, ?_⟩
      · exact (congrArg Service.jobs hservice).trans ht.jobs
      · exact (congrArg (·.settings.lockKey) hservice).trans ht.lockKey
      · exact (congrArg Service.stopped hservice).trans ht.stopped
      · exact (congrArg (·.tracker.isRunning) hservice).trans hidle
      · intro job' hjob'
        cases hjob'
    exact ⟨.resting, .quiet ht' hs hstore rfl rfl nofun rfl⟩
  · exact ⟨t, .stay ht hs rfl⟩

/-! ### Any step -/

/-- A step takes a stance to a stance, whatever the others have done since the last one. -/
theorem step (ht : p.Takes key t) (hs : Backed key p.store t)
    (hissued : ∀ a k, p.store.Holds a k → a < p.store.nextSession) (m : Move) :
    ∃ t', Step key p (p.next m) t t' := by
  cases m with
  | call kind => exact step_call ht hs kind
  | connect => exact step_connect ht hs hissued
  | lock => exact step_lock ht hs
  | begin => exact step_begin ht hs
  | send => exact step_send ht hs
  | pickUp => exact step_pickUp ht hs
  | read => exact step_read ht hs
  | gather => exact step_gather ht hs
  | commit => exact step_commit ht hs
  | unlock => exact step_unlock ht hs
  | drop => exact step_drop ht hs
  | conclude => exact step_conclude ht hs
  | tell site =>
    have ht' : Takes key (p.tell site) t :=
      ⟨ht.gate, ht.jobs, ht.duty, ht.lockKey, ht.stopped, ht.running, ht.current⟩
    exact ⟨t, .stay ht' hs rfl⟩

/-! ### Refusals -/

/-- Until a run has the lock, nothing has been done for it. -/
theorem asks_frame (ht : p.Takes key t) (hs : Backed key p.store t) {m : Move}
    (h : m.asks = true) :
    (p.next m).service = p.service ∧ (p.next m).store.data = p.store.data ∧
      ((p.next m).store.locks = p.store.locks ∨
        ∃ kind session, (p.next m).gate = .locked kind session) := by
  cases m with
  | call kind =>
    simp only [next, call]
    split
    · split
      · exact ⟨rfl, rfl, .inl rfl⟩
      · exact ⟨rfl, rfl, .inl rfl⟩
    · exact ⟨rfl, rfl, .inl rfl⟩
  | connect =>
    simp only [next, connect]
    split
    · rcases hopen : p.engine.connect with ⟨r, e⟩
      cases r with
      | error r =>
        rw [Engine.of_connect_error hopen]
        exact ⟨rfl, rfl, .inl rfl⟩
      | ok session =>
        obtain ⟨_, rfl⟩ := Engine.of_connect_ok hopen
        exact ⟨rfl, rfl, .inl rfl⟩
    · exact ⟨rfl, rfl, .inl rfl⟩
  | lock =>
    simp only [next, lock]
    split
    · rename_i kind session hgate
      have hopen : t = .opened kind session := Stance.of_gate_opened (ht.gate.symm.trans hgate)
      rcases htake : p.engine.takeLock session with ⟨r, e⟩
      cases r with
      | error r =>
        rw [Engine.of_takeLock_error htake]
        refine ⟨rfl, rfl, .inl ?_⟩
        have hnone := Store.dropSession_of_not_holds (hs.fresh kind session hopen)
        exact congrArg Store.locks hnone
      | ok session' =>
        obtain ⟨_, _, rfl⟩ := Engine.of_takeLock_ok htake
        exact ⟨rfl, Store.data_tryLock _ _ _, .inr ⟨kind, session', rfl⟩⟩
    · exact ⟨rfl, rfl, .inl rfl⟩
  | _ => cases h

end Post

end PinLedger
