import PinLedger.Proofs.Run.Transaction

/-!
# PinLedger.Proofs.Run.Faults

What the work of a run leaves as it is besides the data. Only a told failure of a pin batch is ever
used up: when none has been told, the faults of the store stay, whether the run comes to its end or
fails on the way. A run that comes to its end has discarded no statement.

* `Upholds` — work that keeps a property of the workspace, also when it fails
* `Outer`, `upholds_reconcileAll`, `upholds_wipe` — properties that hang on neither data nor queues
* `Spares`, `spares_update`, `spares_rebuild`, `faults_of_transaction` — the faults
* `Workspace.Spent`, `spent_of_update`, `spent_of_rebuild` — nothing waits at the end of a run, and
  nothing was discarded
-/

namespace PinLedger

/-- Work after which `P` holds if it has held before, whether the work comes to its end or fails. -/
def Upholds {α : Type} (P : Workspace → Prop) (x : Work α) : Prop :=
  ∀ s, P s → P (x.exec s).2

namespace Upholds

variable {α β : Type} {P : Workspace → Prop}

theorem pure (a : α) : Upholds P (Pure.pure a) := fun _ hs => hs

theorem throw (a : Abort) : Upholds P (throw a : Work α) := fun _ hs => hs

theorem bind {x : Work α} {f : α → Work β} (hx : Upholds P x) (hf : ∀ a, Upholds P (f a)) :
    Upholds P (x >>= f) := by
  intro s hs
  have hfirst := hx s hs
  rw [Work.exec_bind]
  rcases hr : x.exec s with ⟨r, s₁⟩
  rw [hr] at hfirst
  cases r with
  | error e => exact hfirst
  | ok a => exact hf a s₁ hfirst

theorem get_bind {f : Workspace → Work α} (hf : ∀ s, Upholds P (f s)) :
    Upholds P ((get : Work Workspace) >>= f) := fun s hs => hf s s hs

theorem modify_bind {u : Workspace → Workspace} {f : PUnit → Work α}
    (hu : ∀ s, P s → P (u s)) (hf : Upholds P (f ⟨⟩)) :
    Upholds P ((modify u : Work PUnit) >>= f) := by
  intro s hs
  rw [Work.exec_modify_bind]
  exact hf (u s) (hu s hs)

theorem forM {x : α → Work PUnit} (hx : ∀ a, Upholds P (x a)) (l : List α) :
    Upholds P (l.forM x) := by
  induction l with
  | nil => exact pure PUnit.unit
  | cons a l ih => exact (hx a).bind fun _ => ih

theorem mapM {x : α → Work β} (hx : ∀ a, Upholds P (x a)) (l : List α) :
    Upholds P (l.mapM x) := by
  induction l with
  | nil => exact pure []
  | cons a l ih =>
    rw [List.mapM_cons]
    exact (hx a).bind fun b => ih.bind fun bs => pure (b :: bs)

theorem foldlM {x : β → α → Work β} (hx : ∀ b a, Upholds P (x b a)) (l : List α) (b : β) :
    Upholds P (l.foldlM x b) := by
  induction l generalizing b with
  | nil => exact pure b
  | cons a l ih =>
    rw [List.foldlM_cons]
    exact (hx b a).bind fun b' => ih b'

end Upholds

/-! ### Batches and queues -/

/-- What hangs on neither the data nor the queues, and stays when a batch looks for a told failure. -/
structure Outer (P : Workspace → Prop) : Prop where
  frame : ∀ s s', s'.faults = s.faults → s'.warnings = s.warnings → P s → P s'
  checked : Upholds P Work.checkFault

variable {P : Workspace → Prop}

theorem upholds_executePin (hP : Outer P) (p : PinStatement) : Upholds P (Work.executePin p) := by
  intro s hs
  rw [Work.exec_executePin]
  cases s.data.applyPin p with
  | error a => exact hs
  | ok d => exact hP.frame s _ rfl rfl hs

theorem upholds_executePins (hP : Outer P) (batch : List PinStatement) :
    Upholds P (Work.executePins batch) :=
  hP.checked.bind fun _ =>
    (Upholds.forM (upholds_executePin hP) batch).bind fun _ => Upholds.pure batch.length

theorem upholds_flushPins (hP : Outer P) : Upholds P Work.flushPins := by
  intro s hs
  cases hp : s.pins.pending with
  | nil =>
    rw [Work.exec_flushPins_of_nil hp]
    exact hs
  | cons p l =>
    rw [Work.exec_flushPins_of_cons hp]
    have hbatch := (upholds_executePins hP (p :: l)).bind fun n =>
      Upholds.modify_bind (u := fun s => { s with pins := s.pins.recordExecuted n })
        (f := fun _ => pure n) (fun s hs => hP.frame s _ rfl rfl hs) (Upholds.pure n)
    exact hbatch { s with pins := { s.pins with pending := [] } } (hP.frame s _ rfl rfl hs)

theorem upholds_flushViews (hP : Outer P) : Upholds P Work.flushViews := by
  intro s hs
  obtain ⟨n, h⟩ := Work.exec_flushViews s
  rw [h]
  exact hP.frame s _ rfl rfl hs

theorem upholds_enqueuePin (hP : Outer P) (p : PinStatement) : Upholds P (Work.enqueuePin p) := by
  unfold Work.enqueuePin
  refine Upholds.get_bind fun s => ?_
  cases s.pins.push p with
  | error e => exact Upholds.throw (.error e)
  | ok r =>
    obtain ⟨pins, full⟩ := r
    refine Upholds.modify_bind (fun s hs => hP.frame s _ rfl rfl hs) ?_
    cases full
    · exact Upholds.pure p.sql
    · exact (upholds_flushPins hP).bind fun _ => Upholds.pure p.sql

theorem upholds_enqueueView (hP : Outer P) (v : ViewStatement) :
    Upholds P (Work.enqueueView v) := by
  unfold Work.enqueueView
  refine Upholds.get_bind fun s => ?_
  cases s.views.push v with
  | error e => exact Upholds.throw (.error e)
  | ok r =>
    obtain ⟨views, full⟩ := r
    refine Upholds.modify_bind (fun s hs => hP.frame s _ rfl rfl hs) ?_
    cases full
    · exact Upholds.pure v.sql
    · exact (upholds_flushViews hP).bind fun _ => Upholds.pure v.sql

/-! ### Runs, up to their end -/

variable {reg : Registry} {w : Window} {views : List ParsedView} {watermark : Option Instant}

theorem upholds_planView (hP : Outer P) (v : ParsedView) : Upholds P (Work.planView reg w v) := by
  intro s hs
  rw [exec_planView]
  exact hP.frame s _ rfl rfl hs

theorem upholds_applyPlan (hP : Outer P) (p : Plan) : Upholds P (Work.applyPlan p) := by
  unfold Work.applyPlan
  refine Upholds.bind (Upholds.mapM ?_ p.operations) fun pins => ?_
  · intro op
    exact upholds_enqueuePin hP op.statement
  · refine Upholds.bind (Upholds.mapM (upholds_enqueueView hP) p.statement.toList) fun views => ?_
    exact Upholds.pure (pins ++ views)

theorem upholds_reconcileAll (hP : Outer P) (views : List ParsedView) :
    Upholds P (Work.reconcileAll reg w views) := by
  unfold Work.reconcileAll
  refine Upholds.foldlM ?_ views _
  intro sum v
  refine Upholds.bind ?_ fun r => Upholds.pure (sum.record r.1.case)
  exact (upholds_planView hP v).bind fun p =>
    (upholds_applyPlan hP p).bind fun texts => Upholds.pure (p, texts)

theorem upholds_truncate (hP : Outer P) : Upholds P Work.truncate := by
  intro s hs
  rw [exec_truncate]
  exact hP.frame s _ rfl rfl hs

theorem upholds_wipe (hP : Outer P) : Upholds P (Work.wipe reg) := by
  refine (Upholds.forM (fun table => ?_) reg.tables).bind fun _ =>
    (upholds_flushPins hP).bind fun _ => upholds_truncate hP
  exact (upholds_enqueuePin hP (.reset table)).bind fun _ => Upholds.pure ()

/-! ### Faults -/

theorem outer_faults {f : Faults} (hf : f.batchesLeft = none) : Outer (·.faults = f) where
  frame := fun _ _ hfaults _ hs => hfaults.trans hs
  checked := by
    intro s hs
    have hsound : s.Sound := by
      unfold Workspace.Sound
      rw [hs]
      exact hf
    rw [Work.exec_checkFault hsound]
    exact hs

/-- Work that leaves the faults alone if no pin batch has been told to fail. -/
def Spares {α : Type} (x : Work α) : Prop :=
  ∀ s : Workspace, s.Sound → (x.exec s).2.faults = s.faults

theorem Spares.ite {α : Type} {c : Prop} [Decidable c] {x y : Work α} (hx : Spares x)
    (hy : Spares y) : Spares (if c then x else y) := by
  split
  · exact hx
  · exact hy

theorem upholds_finish {f : Faults} (hf : f.batchesLeft = none) (sum : RunSummary) :
    Upholds (·.faults = f) (Work.finish watermark sum) := by
  refine (upholds_flushPins (outer_faults hf)).bind fun _ =>
    (upholds_flushViews (outer_faults hf)).bind fun _ => ?_
  intro s hs
  obtain ⟨s', h, _, hfaults⟩ := exec_stored watermark sum s
  rw [h]
  exact hfaults.trans hs

theorem spares_update : Spares (Work.update reg w views watermark) := by
  intro s hs
  have hupdate : Upholds (·.faults = s.faults) (Work.update reg w views watermark) :=
    (upholds_reconcileAll (outer_faults hs) views).bind (upholds_finish hs)
  exact hupdate s rfl

theorem spares_rebuild : Spares (Work.rebuild reg w views watermark) := by
  intro s hs
  have hrebuild : Upholds (·.faults = s.faults) (Work.rebuild reg w views watermark) :=
    (upholds_wipe (outer_faults hs)).bind fun _ =>
      (upholds_reconcileAll (outer_faults hs) views).bind (upholds_finish hs)
  exact hrebuild s rfl

/-- A transaction with such work leaves the faults of the store alone. -/
theorem faults_of_transaction {α : Type} {work : Work α} {s : Store} (h : Spares work)
    (hs : s.faults.batchesLeft = none) (pinBatch viewBatch : Nat) :
    (s.transaction pinBatch viewBatch work).store.faults = s.faults := by
  have hfaults := h (.start s.data s.faults pinBatch viewBatch) hs
  rcases hr : work.exec (.start s.data s.faults pinBatch viewBatch) with ⟨r, s'⟩
  rw [hr] at hfaults
  rw [Store.transaction_of_exec hr]
  cases r with
  | error a => exact hfaults
  | ok a => exact hfaults

/-! ### Statements that are discarded -/

/-- No statement waits, and none has been discarded. -/
structure Workspace.Spent (s : Workspace) : Prop where
  pins : s.pins.pending = []
  views : s.views.pending = []
  warnings : s.warnings = []

theorem outer_warnings (ws : List Warning) : Outer (·.warnings = ws) where
  frame := fun _ _ _ hwarnings hs => hwarnings.trans hs
  checked := by
    intro s hs
    rw [Work.frame_checkFault]
    exact hs

theorem Queue.release_of_nil {α : Type} {q : Queue α} (h : q.pending = []) :
    q.release.1 = 0 ∧ q.release.2.pending = [] := by
  unfold release
  cases q.released
  · exact ⟨congrArg List.length h, rfl⟩
  · exact ⟨rfl, h⟩

/-- The end of a run flushes both queues before it releases them. -/
theorem spent_of_finish {s s' : Workspace} {sum sum' : RunSummary} (hs : s.warnings = [])
    (h : (Work.finish watermark sum).exec s = (.ok sum', s')) : s'.Spent := by
  obtain ⟨n, s₁, h₁, h⟩ := Work.exec_bind_ok h
  obtain ⟨m, s₂, h₂, h⟩ := Work.exec_bind_ok h
  obtain ⟨d, f, _, rfl⟩ := Work.of_exec_flushPins h₁
  obtain ⟨m', hviews⟩ := Work.exec_flushViews { s.flushedPins d with faults := f }
  rw [hviews] at h₂
  cases h₂
  rw [Work.exec_bind_of_ok (exec_storeLastRun watermark _)] at h
  have hend : s' = (Work.releaseViews.exec (Work.releasePins.exec
      ((Workspace.flushedViews { s.flushedPins d with faults := f }).stored watermark)).2).2 :=
    (Prod.mk.inj h).2.symm
  have hpins : (s.flushedPins d).pins.release.1 = 0 ∧
      (s.flushedPins d).pins.release.2.pending = [] := Queue.release_of_nil rfl
  have hqueue : (s.flushedPins d).flushedViews.views.release.1 = 0 ∧
      (s.flushedPins d).flushedViews.views.release.2.pending = [] := Queue.release_of_nil rfl
  rw [hend]
  refine ⟨hpins.2, hqueue.2, ?_⟩
  show (s.warnings ++ Work.discardWarning _ (s.flushedPins d).pins.release.1) ++
    Work.discardWarning _ (s.flushedPins d).flushedViews.views.release.1 = []
  rw [hs, hpins.1, hqueue.1]
  rfl

/-- A run that is committed leaves nothing waiting, and has discarded nothing. -/
theorem spent_of_update {s s' : Workspace} {sum : RunSummary} (hs : s.warnings = [])
    (h : (Work.update reg w views watermark).exec s = (.ok sum, s')) : s'.Spent := by
  obtain ⟨sum₁, s₁, h₁, h⟩ := Work.exec_bind_ok h
  have hreconcile : Upholds (·.warnings = []) (Work.reconcileAll reg w views) :=
    upholds_reconcileAll (outer_warnings []) views
  have hsilent := hreconcile s hs
  rw [h₁] at hsilent
  exact spent_of_finish hsilent h

theorem spent_of_rebuild {s s' : Workspace} {sum : RunSummary} (hs : s.warnings = [])
    (h : (Work.rebuild reg w views watermark).exec s = (.ok sum, s')) : s'.Spent := by
  obtain ⟨u, s₁, h₁, h⟩ := Work.exec_bind_ok h
  have hwipe : Upholds (·.warnings = []) (Work.wipe reg) := upholds_wipe (outer_warnings [])
  have hsilent := hwipe s hs
  rw [h₁] at hsilent
  exact spent_of_update hsilent h

end PinLedger
