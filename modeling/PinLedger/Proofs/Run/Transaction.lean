import PinLedger.Proofs.Store.Batches
import PinLedger.Run.Work

/-!
# PinLedger.Proofs.Run.Transaction

A run that is done in a transaction, with its queues, batches and flushes, comes to what it comes to
when nothing waits. A batch that is told to fail can only keep it from its end.

* `keeps_reconcile`, `keeps_reconcileAll`, `keeps_wipe` — the parts of a run
* `update_of_transaction`, `rebuild_of_transaction` — what a run that is committed has done
* `transaction_of_update`, `transaction_of_rebuild` — a run that must be committed
-/

namespace PinLedger

/-! ### Plans -/

theorem Ledger.pin_append (g : Ledger) (l l' : List PinStatement) :
    g.pin (l ++ l') = g.pin l >>= fun g => g.pin l' := by
  unfold Ledger.pin
  rw [applyPins_append]
  cases g.data.applyPins l with
  | error a => rfl
  | ok d =>
    show (d.applyPins l').map _ = (d.applyPins l').map _
    cases d.applyPins l' with
    | error a => rfl
    | ok d' => simp only [Except.map, List.length_append, Nat.add_assoc]

theorem Ledger.pin_cons (g : Ledger) (p : PinStatement) (l : List PinStatement) :
    g.pin (p :: l) = g.pin [p] >>= fun g => g.pin l :=
  Ledger.pin_append g [p] l

theorem Ledger.change_cons (g : Ledger) (v : ViewStatement) (l : List ViewStatement) :
    g.change (v :: l) = (g.change [v]).change l := by
  simp only [Ledger.change, List.foldl_cons, List.foldl_nil, List.length_cons, List.length_nil]
  congr 1
  omega

theorem keeps_enqueuePins (l : List PinOperation) :
    Keeps (l.mapM fun op => Work.enqueuePin op.statement) fun g =>
      (g.pin (l.map PinOperation.statement)).map fun g' => (l.map (·.statement.sql), g') := by
  induction l with
  | nil => exact Keeps.pure []
  | cons op l ih =>
    rw [List.mapM_cons]
    refine ((keeps_enqueuePin op.statement).bind fun text => ih.bind fun texts =>
      Keeps.pure (text :: texts)).congr ?_
    intro g
    simp only [List.map_cons]
    rw [Ledger.pin_cons g op.statement (l.map PinOperation.statement)]
    cases g.pin [op.statement] with
    | error a => rfl
    | ok g₁ =>
      show ((g₁.pin (l.map PinOperation.statement)).map _ >>= _) =
        (g₁.pin (l.map PinOperation.statement)).map _
      cases g₁.pin (l.map PinOperation.statement) with
      | error a => rfl
      | ok g₂ => rfl

theorem keeps_enqueueViews (l : List ViewStatement) :
    Keeps (l.mapM Work.enqueueView) fun g => .ok (l.map (·.sql), g.change l) := by
  induction l with
  | nil => exact Keeps.pure []
  | cons v l ih =>
    rw [List.mapM_cons]
    refine ((keeps_enqueueView v).bind fun text => ih.bind fun texts =>
      Keeps.pure (text :: texts)).congr ?_
    intro g
    rw [Ledger.change_cons g v l]
    rfl

theorem keeps_applyPlan (p : Plan) :
    Keeps (Work.applyPlan p) fun g =>
      (g.pin (p.operations.map PinOperation.statement)).map fun g' =>
        (p.texts, g'.change p.statement.toList) := by
  refine ((keeps_enqueuePins p.operations).bind fun pins =>
    (keeps_enqueueViews p.statement.toList).bind fun views => Keeps.pure (pins ++ views)).congr ?_
  intro g
  cases g.pin (p.operations.map PinOperation.statement) with
  | error a => rfl
  | ok g' => rfl

/-- Planning a view carries out the waiting view statements first. -/
theorem exec_planView (reg : Registry) (w : Window) (v : ParsedView) (s : Workspace) :
    (Work.planView reg w v).exec s =
      ((PinLedger.plan s.flushedViews.data.lookup reg w (s.flushedViews.data.views.find? v.id)
        v).mapError PlanError.toAbort, s.flushedViews) := by
  obtain ⟨n, hflush⟩ := Work.exec_flushViews s
  unfold Work.planView Work.fetchView
  rw [bind_assoc, Work.exec_bind_of_ok hflush]
  unfold Work.storedView
  rw [bind_assoc, Work.exec_get_bind, pure_bind, Work.exec_get_bind]
  cases PinLedger.plan s.flushedViews.data.lookup reg w
      (s.flushedViews.data.views.find? v.id) v with
  | error e => rfl
  | ok p => rfl

/-- With no view statement waiting, planning sees what the workspace stands for. -/
theorem plan_of_settled {s : Workspace} {g : Ledger} (reg : Registry) (w : Window)
    (v : ParsedView) (hg : s.settled = .ok g) :
    g.plan reg w v =
      (PinLedger.plan s.flushedViews.data.lookup reg w (s.flushedViews.data.views.find? v.id)
        v).mapError PlanError.toAbort := by
  rw [← Workspace.settled_flushedViews] at hg
  obtain ⟨d, happly, rfl⟩ := map_eq_ok.1 hg
  have hlookup : d.lookup = s.flushedViews.data.lookup :=
    StoreData.lookup_congr (skeleton_applyPins happly)
  have hviews : d.views = s.flushedViews.data.views := views_applyPins happly
  unfold Ledger.plan
  show (PinLedger.plan d.lookup reg w (d.views.find? v.id) v).mapError _ = _
  rw [hlookup, hviews]

theorem keeps_planView (reg : Registry) (w : Window) (v : ParsedView) :
    Keeps (Work.planView reg w v) fun g => (g.plan reg w v).map fun p => (p, g) where
  sound := by
    intro s s' p ho h
    rw [exec_planView] at h
    obtain ⟨hplan, rfl⟩ := Prod.mk.inj h
    refine ⟨⟨ho.pins, ho.views⟩, ?_⟩
    intro g hg
    rw [Workspace.settled_flushedViews] at hg
    refine ⟨g, hg, map_eq_ok.2 ⟨p, ?_, rfl⟩⟩
    rw [plan_of_settled reg w v hg]
    exact hplan
  complete := by
    intro s g g' p ho hs hg h
    obtain ⟨_, hplan, heq⟩ := map_eq_ok.1 h
    cases heq
    rw [plan_of_settled reg w v hg] at hplan
    refine ⟨s.flushedViews, ?_, ⟨ho.pins, ho.views⟩, hs, ?_⟩
    · rw [exec_planView, hplan]
    · rw [Workspace.settled_flushedViews]
      exact hg

/-- Reconciling a view posts it. -/
theorem keeps_reconcile (reg : Registry) (w : Window) (v : ParsedView) :
    Keeps (Work.reconcile reg w v) fun g =>
      (g.post reg w v).map fun r => ((r.1, r.1.texts), r.2) := by
  refine ((keeps_planView reg w v).bind fun p => (keeps_applyPlan p).bind fun texts =>
    Keeps.pure (p, texts)).congr ?_
  intro g
  unfold Ledger.post
  cases g.plan reg w v with
  | error a => rfl
  | ok p =>
    show ((g.pin (p.operations.map PinOperation.statement)).map _ >>= _) =
      Except.map _ (g.pin (p.operations.map PinOperation.statement) >>= _)
    cases g.pin (p.operations.map PinOperation.statement) with
    | error a => rfl
    | ok g' => rfl

theorem keeps_reconcileNext (reg : Registry) (w : Window) (sum : RunSummary) (v : ParsedView) :
    Keeps (Work.reconcileNext reg w sum v) fun g =>
      (g.post reg w v).map fun r => (sum.record r.1.case, r.2) := by
  refine ((keeps_reconcile reg w v).bind fun r => Keeps.pure (sum.record r.1.case)).congr ?_
  intro g
  cases g.post reg w v with
  | error a => rfl
  | ok r => rfl

/-- Reconciling views one after another posts them one after another. -/
theorem keeps_reconcileAll (reg : Registry) (w : Window) (views : List ParsedView)
    (sum : RunSummary) :
    Keeps (views.foldlM (Work.reconcileNext reg w) sum) fun g =>
      Ledger.postAll reg w sum g views := by
  induction views generalizing sum with
  | nil => exact Keeps.pure sum
  | cons v views ih =>
    rw [List.foldlM_cons]
    refine ((keeps_reconcileNext reg w sum v).bind fun sum' => ih sum').congr ?_
    intro g
    show _ = (g.post reg w v >>= fun r => Ledger.postAll reg w (sum.record r.1.case) r.2 views)
    cases g.post reg w v with
    | error a => rfl
    | ok r => rfl

/-! ### A run from scratch -/

theorem keeps_resets (names : List String) :
    Keeps (names.forM fun name => do let _ ← Work.enqueuePin (.reset name)) fun g =>
      (g.pin (names.map .reset)).map fun g' => ((), g') := by
  induction names with
  | nil => exact Keeps.pure ()
  | cons name names ih =>
    have hname := (keeps_enqueuePin (.reset name)).bind fun _ => Keeps.pure ()
    refine Keeps.congr (hname.bind fun _ => ih) ?_
    intro g
    rw [List.map_cons, Ledger.pin_cons g (.reset name) (names.map .reset)]
    cases g.pin [.reset name] with
    | error a => rfl
    | ok g' => rfl

/-- Without records; those that wait are dropped with the others. -/
def Workspace.truncated (s : Workspace) : Workspace :=
  { s.flushedViews with data := { s.flushedViews.data with views := .empty } }

/-- A ledger without records. -/
def Ledger.truncated (g : Ledger) : Ledger := { g with data := { g.data with views := .empty } }

theorem Workspace.settled_truncated (s : Workspace) :
    s.truncated.settled = s.settled.map Ledger.truncated := by
  have hmove := applyPins_withViews s.flushedViews.data .empty s.flushedViews.pins.pending
  rw [← settled_flushedViews s]
  unfold settled truncated
  rw [hmove]
  cases s.flushedViews.data.applyPins s.flushedViews.pins.pending with
  | error a => rfl
  | ok d => rfl

theorem exec_truncate (s : Workspace) : Work.truncate.exec s = (.ok ⟨⟩, s.truncated) := by
  obtain ⟨n, hflush⟩ := Work.exec_flushViews s
  unfold Work.truncate
  rw [Work.exec_bind_of_ok hflush]
  rfl

theorem keeps_truncate : Keeps Work.truncate fun g => .ok ((), g.truncated) where
  sound := by
    intro s s' u ho h
    rw [exec_truncate] at h
    cases h
    refine ⟨⟨ho.pins, ho.views⟩, ?_⟩
    intro g' hg'
    rw [Workspace.settled_truncated] at hg'
    obtain ⟨g, hg, rfl⟩ := map_eq_ok.1 hg'
    exact ⟨g, hg, rfl⟩
  complete := by
    intro s g g' u ho hs hg h
    cases h
    refine ⟨s.truncated, exec_truncate s, ⟨ho.pins, ho.views⟩, hs, ?_⟩
    rw [Workspace.settled_truncated, hg]
    rfl

theorem keeps_wipe (reg : Registry) :
    Keeps (Work.wipe reg) fun g => (g.wipe reg).map fun g' => ((), g') := by
  refine ((keeps_resets reg.tables).bind fun _ => Keeps.flushPins_bind fun _ =>
    keeps_truncate).congr ?_
  intro g
  unfold Ledger.wipe
  cases g.pin (reg.tables.map .reset) with
  | error a => rfl
  | ok g' => rfl

/-! ### The end of a run -/

/-- The workspace at the end of a run, when nothing waits any more. -/
def Workspace.stored (s : Workspace) (watermark : Option Instant) : Workspace :=
  { s with data := watermark.elim s.data fun t => { s.data with lastRun := some t } }

theorem exec_storeLastRun (watermark : Option Instant) (s : Workspace) :
    (watermark.forM Work.storeLastRun).exec s = (.ok ⟨⟩, s.stored watermark) := by
  cases watermark with
  | none => rfl
  | some t => rfl

/-- The end of a run, after the flushes. -/
theorem exec_stored (watermark : Option Instant) (sum : RunSummary) (s : Workspace) :
    ∃ s', ((do
        watermark.forM Work.storeLastRun
        let space ← get
        Work.releasePins
        Work.releaseViews
        pure { sum with
          pinStatements := space.pins.executed
          viewStatements := space.views.executed
          watermark }) : Work RunSummary).exec s =
      (.ok { sum with
        pinStatements := s.pins.executed
        viewStatements := s.views.executed
        watermark }, s') ∧ s'.data = (s.stored watermark).data ∧ s'.faults = s.faults := by
  rw [Work.exec_bind_of_ok (exec_storeLastRun watermark s)]
  cases watermark with
  | none => exact ⟨_, rfl, rfl, rfl⟩
  | some t => exact ⟨_, rfl, rfl, rfl⟩

/-- A run that comes to its end leaves the data that its workspace stood for, with the watermark. -/
theorem of_exec_finish {s s' : Workspace} {watermark : Option Instant} {sum sum' : RunSummary}
    (h : (Work.finish watermark sum).exec s = (.ok sum', s')) :
    ∃ g, s.settled = .ok g ∧ sum' = g.summary watermark sum ∧ s'.data = g.closed watermark := by
  obtain ⟨n, s₁, h₁, h⟩ := Work.exec_bind_ok h
  obtain ⟨m, s₂, h₂, h⟩ := Work.exec_bind_ok h
  obtain ⟨d, f, happly, rfl⟩ := Work.of_exec_flushPins h₁
  obtain ⟨m', hviews⟩ := Work.exec_flushViews { s.flushedPins d with faults := f }
  rw [hviews] at h₂
  cases h₂
  obtain ⟨s₃, hstored, hdata, _⟩ :=
    exec_stored watermark sum ({ s.flushedPins d with faults := f } : Workspace).flushedViews
  rw [hstored] at h
  obtain ⟨hsum, rfl⟩ := Prod.mk.inj h
  cases hsum
  refine ⟨_, map_eq_ok.2 ⟨d, happly, rfl⟩, rfl, ?_⟩
  rw [hdata]
  cases watermark with
  | none => rfl
  | some t => rfl

/-- A run comes to its end if what waits can be carried out. -/
theorem exec_finish_of_flush {s : Workspace} {d : StoreData} {n : Nat} (watermark : Option Instant)
    (sum : RunSummary) (happly : s.data.applyPins s.pins.pending = .ok d)
    (hpins : Work.flushPins.exec s = (.ok n, s.flushedPins d)) :
    ∃ g s', s.settled = .ok g ∧
      (Work.finish watermark sum).exec s = (.ok (g.summary watermark sum), s') ∧
      s'.data = g.closed watermark ∧ s'.faults = s.faults := by
  obtain ⟨m, hviews⟩ := Work.exec_flushViews (s.flushedPins d)
  obtain ⟨s', hstored, hdata, hfaults⟩ :=
    exec_stored watermark sum (s.flushedPins d).flushedViews
  refine ⟨_, s', map_eq_ok.2 ⟨d, happly, rfl⟩, ?_, ?_, hfaults⟩
  · unfold Work.finish
    rw [Work.exec_bind_of_ok hpins, Work.exec_bind_of_ok hviews]
    exact hstored
  · rw [hdata]
    cases watermark with
    | none => rfl
    | some t => rfl

/-- Without told failures that is so. -/
theorem exec_finish_ok {s : Workspace} {g : Ledger} (watermark : Option Instant)
    (sum : RunSummary) (hs : s.Sound) (hg : s.settled = .ok g) :
    ∃ s', (Work.finish watermark sum).exec s = (.ok (g.summary watermark sum), s') ∧
      s'.data = g.closed watermark ∧ s'.faults = s.faults := by
  obtain ⟨d, happly, _⟩ := map_eq_ok.1 hg
  obtain ⟨n, hpins⟩ := Work.exec_flushPins_ok hs happly
  obtain ⟨g', s', hg', hend⟩ := exec_finish_of_flush watermark sum happly hpins
  rw [hg] at hg'
  cases hg'
  exact ⟨s', hend⟩

/-! ### Whole runs -/

section Runs

variable {reg : Registry} {w : Window} {views : List ParsedView} {watermark : Option Instant}
variable {sum : RunSummary} {s s' : Workspace}

theorem of_exec_update (ho : s.Open)
    (h : (Work.update reg w views watermark).exec s = (.ok sum, s')) :
    ∃ g, s.settled = .ok g ∧ Ledger.run reg w views watermark g = .ok (sum, s'.data) := by
  obtain ⟨sum₁, s₁, h₁, h₂⟩ := Work.exec_bind_ok h
  obtain ⟨g₁, hg₁, rfl, hdata⟩ := of_exec_finish h₂
  obtain ⟨_, hpost⟩ := (keeps_reconcileAll reg w views {}).sound s s₁ sum₁ ho h₁
  obtain ⟨g, hg, hF⟩ := hpost g₁ hg₁
  refine ⟨g, hg, ?_⟩
  rw [hdata]
  exact bind_eq_ok.2 ⟨(sum₁, g₁), hF, rfl⟩

theorem exec_update_ok {g : Ledger} {d : StoreData} (ho : s.Open) (hs : s.Sound)
    (hg : s.settled = .ok g) (h : Ledger.run reg w views watermark g = .ok (sum, d)) :
    ∃ s', (Work.update reg w views watermark).exec s = (.ok sum, s') ∧ s'.data = d ∧
      s'.Sound := by
  obtain ⟨⟨sum₁, g₁⟩, hF, h⟩ := bind_eq_ok.1 h
  cases h
  obtain ⟨s₁, h₁, _, hs₁, hg₁⟩ :=
    (keeps_reconcileAll reg w views {}).complete s g g₁ sum₁ ho hs hg hF
  obtain ⟨s', h₂, hdata, hfaults⟩ := exec_finish_ok watermark sum₁ hs₁ hg₁
  have hs' : s'.Sound := by
    unfold Workspace.Sound
    rw [hfaults]
    exact hs₁
  refine ⟨s', ?_, hdata, hs'⟩
  unfold Work.update Work.reconcileAll
  rw [Work.exec_bind_of_ok h₁]
  exact h₂

theorem of_exec_rebuild (ho : s.Open)
    (h : (Work.rebuild reg w views watermark).exec s = (.ok sum, s')) :
    ∃ g g', s.settled = .ok g ∧ g.wipe reg = .ok g' ∧
      Ledger.run reg w views watermark g' = .ok (sum, s'.data) := by
  obtain ⟨u, s₁, h₁, h₂⟩ := Work.exec_bind_ok h
  obtain ⟨ho₁, hwipe⟩ := (keeps_wipe reg).sound s s₁ u ho h₁
  obtain ⟨g', hg', hrun⟩ := of_exec_update ho₁ h₂
  obtain ⟨g, hg, hF⟩ := hwipe g' hg'
  obtain ⟨_, hF, heq⟩ := map_eq_ok.1 hF
  cases heq
  exact ⟨g, g', hg, hF, hrun⟩

theorem exec_rebuild_ok {g g' : Ledger} {d : StoreData} (ho : s.Open) (hs : s.Sound)
    (hg : s.settled = .ok g) (hwipe : g.wipe reg = .ok g')
    (h : Ledger.run reg w views watermark g' = .ok (sum, d)) :
    ∃ s', (Work.rebuild reg w views watermark).exec s = (.ok sum, s') ∧ s'.data = d ∧
      s'.Sound := by
  obtain ⟨s₁, h₁, ho₁, hs₁, hg₁⟩ :=
    (keeps_wipe reg).complete s g g' () ho hs hg (map_eq_ok.2 ⟨g', hwipe, rfl⟩)
  obtain ⟨s', h₂, hdata, hs'⟩ := exec_update_ok ho₁ hs₁ hg₁ h
  refine ⟨s', ?_, hdata, hs'⟩
  unfold Work.rebuild
  rw [Work.exec_bind_of_ok h₁]
  exact h₂

end Runs

/-! ### Transactions -/

theorem Workspace.open_start (d : StoreData) (f : Faults) (pinBatch viewBatch : Nat) :
    (Workspace.start d f pinBatch viewBatch).Open :=
  ⟨rfl, rfl⟩

theorem Workspace.settled_start (d : StoreData) (f : Faults) (pinBatch viewBatch : Nat) :
    (Workspace.start d f pinBatch viewBatch).settled = .ok ⟨d, 0, 0⟩ := rfl

namespace Store

variable {α : Type} {reg : Registry} {w : Window} {views : List ParsedView}
variable {watermark : Option Instant} {sum : RunSummary} {d : StoreData}

/-- The store after work that has left a workspace behind. -/
def leftBy (s : Store) (s' : Workspace) : Except Abort α → Store
  | .ok _ => { s with data := s'.data, faults := s'.faults }
  | .error _ => { s with faults := s'.faults }

theorem transaction_of_exec {s : Store} {pinBatch viewBatch : Nat} {work : Work α}
    {r : Except Abort α} {s' : Workspace}
    (h : work.exec (.start s.data s.faults pinBatch viewBatch) = (r, s')) :
    s.transaction pinBatch viewBatch work =
      { result := r, workspace := s', store := s.leftBy s' r } := by
  unfold transaction
  have hrun : work.run.run (.start s.data s.faults pinBatch viewBatch) = (r, s') := h
  rw [hrun]
  cases r with
  | error a => rfl
  | ok a => rfl

/-- A transaction leaves sessions and locks alone. -/
theorem transaction_frame (s : Store) (pinBatch viewBatch : Nat) (work : Work α) :
    (s.transaction pinBatch viewBatch work).store.locks = s.locks ∧
      (s.transaction pinBatch viewBatch work).store.nextSession = s.nextSession ∧
      (s.transaction pinBatch viewBatch work).store.faults =
        (s.transaction pinBatch viewBatch work).workspace.faults := by
  rcases hr : work.exec (.start s.data s.faults pinBatch viewBatch) with ⟨r, s'⟩
  rw [transaction_of_exec hr]
  cases r with
  | error a => exact ⟨rfl, rfl, rfl⟩
  | ok a => exact ⟨rfl, rfl, rfl⟩

/-- A transaction that fails changes no data. -/
theorem data_of_transaction_error {s : Store} {pinBatch viewBatch : Nat} {work : Work α}
    {a : Abort} (h : (s.transaction pinBatch viewBatch work).result = .error a) :
    (s.transaction pinBatch viewBatch work).store.data = s.data := by
  rcases hr : work.exec (.start s.data s.faults pinBatch viewBatch) with ⟨r, s'⟩
  rw [transaction_of_exec hr] at h ⊢
  cases r with
  | error a => rfl
  | ok a => cases h

/-- A run that is committed has done what it does when nothing waits. -/
theorem update_of_transaction {s : Store} {pinBatch viewBatch : Nat}
    (h : (s.transaction pinBatch viewBatch (Work.update reg w views watermark)).result = .ok sum) :
    s.data.update reg w views watermark =
      .ok (sum,
        (s.transaction pinBatch viewBatch (Work.update reg w views watermark)).store.data) := by
  rcases hr : (Work.update reg w views watermark).exec
    (.start s.data s.faults pinBatch viewBatch) with ⟨r, s'⟩
  rw [transaction_of_exec hr] at h ⊢
  cases h
  obtain ⟨g, hg, hrun⟩ := of_exec_update (Workspace.open_start _ _ _ _) hr
  rw [Workspace.settled_start] at hg
  cases hg
  exact hrun

theorem rebuild_of_transaction {s : Store} {pinBatch viewBatch : Nat}
    (h : (s.transaction pinBatch viewBatch (Work.rebuild reg w views watermark)).result = .ok sum) :
    s.data.rebuild reg w views watermark =
      .ok (sum,
        (s.transaction pinBatch viewBatch (Work.rebuild reg w views watermark)).store.data) := by
  rcases hr : (Work.rebuild reg w views watermark).exec
    (.start s.data s.faults pinBatch viewBatch) with ⟨r, s'⟩
  rw [transaction_of_exec hr] at h ⊢
  cases h
  obtain ⟨g, g', hg, hwipe, hrun⟩ := of_exec_rebuild (Workspace.open_start _ _ _ _) hr
  rw [Workspace.settled_start] at hg
  cases hg
  exact bind_eq_ok.2 ⟨g', hwipe, hrun⟩

/-- A run that can be done is committed, unless a batch is told to fail. -/
theorem transaction_of_update {s : Store} (pinBatch viewBatch : Nat)
    (hs : s.faults.batchesLeft = none)
    (h : s.data.update reg w views watermark = .ok (sum, d)) :
    (s.transaction pinBatch viewBatch (Work.update reg w views watermark)).result = .ok sum ∧
      (s.transaction pinBatch viewBatch (Work.update reg w views watermark)).store.data = d ∧
      (s.transaction pinBatch viewBatch
        (Work.update reg w views watermark)).store.faults.batchesLeft = none := by
  obtain ⟨s', hexec, hdata, hfaults⟩ :=
    exec_update_ok (Workspace.open_start _ s.faults pinBatch viewBatch) hs
      (Workspace.settled_start _ _ _ _) h
  rw [transaction_of_exec hexec]
  exact ⟨rfl, hdata, hfaults⟩

theorem transaction_of_rebuild {s : Store} (pinBatch viewBatch : Nat)
    (hs : s.faults.batchesLeft = none)
    (h : s.data.rebuild reg w views watermark = .ok (sum, d)) :
    (s.transaction pinBatch viewBatch (Work.rebuild reg w views watermark)).result = .ok sum ∧
      (s.transaction pinBatch viewBatch (Work.rebuild reg w views watermark)).store.data = d ∧
      (s.transaction pinBatch viewBatch
        (Work.rebuild reg w views watermark)).store.faults.batchesLeft = none := by
  obtain ⟨g, hwipe, hrun⟩ := bind_eq_ok.1 h
  obtain ⟨s', hexec, hdata, hfaults⟩ :=
    exec_rebuild_ok (Workspace.open_start _ s.faults pinBatch viewBatch) hs
      (Workspace.settled_start _ _ _ _) hwipe hrun
  rw [transaction_of_exec hexec]
  exact ⟨rfl, hdata, hfaults⟩

end Store

end PinLedger
