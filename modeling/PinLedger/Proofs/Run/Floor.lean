import PinLedger.Proofs.Run.Conservation
import PinLedger.Proofs.Store.Floor

/-!
# PinLedger.Proofs.Run.Floor

No statement of a run meets the floor, wherever the run ends. What waits in the queue is planned for
the counts as they will be when its turn comes, so it finds its rows pinned then; the batches carry
out what waits in its order.

* `StoreData.Traced` — data that statements have led to, each of which found its rows pinned
* `Honest` — work that leaves only such data behind, also when it fails
* `Workspace.Awaits`, `Workspace.Ready` — what waits will find its rows pinned, and a plan as well
* `honest_update`, `honest_rebuild` — the work of runs
-/

namespace PinLedger

namespace StoreData

/-- Statements that each found their rows pinned have led from `d` to the counts of `d'`. -/
def Traced (d d' : StoreData) : Prop :=
  ∃ l, d.bare.applyPins l = .ok d'.bare ∧ d.bare.Funds l

variable {d d' d'' : StoreData}

theorem Traced.of_bare (h : d'.bare = d.bare) : d.Traced d' :=
  ⟨[], congrArg Except.ok h.symm, trivial⟩

theorem Traced.trans (h : d.Traced d') (h' : d'.Traced d'') : d.Traced d'' := by
  obtain ⟨l, hl, hfunds⟩ := h
  obtain ⟨l', hl', hfunds'⟩ := h'
  refine ⟨l ++ l', ?_, funds_append.2 ⟨hfunds, ?_⟩⟩
  · rw [applyPins_append, hl]
    exact hl'
  · intro d₁ h₁
    rw [hl] at h₁
    cases h₁
    exact hfunds'

/-- The log tells the statements. -/
theorem Traced.exists_log (h : d.Traced d') :
    ∃ l d₁, d'.pinLog = d.pinLog ++ l ∧ d.applyPins l = .ok d₁ ∧ d₁.tables = d'.tables ∧
      d.Funds l := by
  obtain ⟨l, hl, hfunds⟩ := h
  have hlog : d'.bare.pinLog = d.bare.pinLog ++ l := pinLog_applyPins hl
  rw [applyPins_bare] at hl
  obtain ⟨d₁, h₁, heq⟩ := map_eq_ok.1 hl
  have htables : d₁.bare.tables = d'.bare.tables := by rw [heq]
  exact ⟨l, d₁, hlog, h₁, htables, funds_bare.1 hfunds⟩

end StoreData

/-! ### Work that leaves a trace -/

/-- Work that, begun where `I` holds, leaves traced data behind, and ends where `J` holds if it
comes to its end. -/
def Honest {α : Type} (I : Workspace → Prop) (x : Work α) (J : α → Workspace → Prop) : Prop :=
  ∀ s r s', I s → x.exec s = (r, s') →
    s.data.Traced s'.data ∧ ∀ a, r = .ok a → J a s'

namespace Honest

variable {α β : Type} {I : Workspace → Prop}

theorem bind {x : Work α} {f : α → Work β} {J : α → Workspace → Prop} {K : β → Workspace → Prop}
    (hx : Honest I x J) (hf : ∀ a, Honest (J a) (f a) K) : Honest I (x >>= f) K := by
  intro s r s' hs h
  rw [Work.exec_bind] at h
  rcases hr : x.exec s with ⟨r₁, s₁⟩
  obtain ⟨htraced, hJ⟩ := hx s r₁ s₁ hs hr
  rw [hr] at h
  cases r₁ with
  | error e =>
    cases h
    refine ⟨htraced, ?_⟩
    intro b hb
    cases hb
  | ok a =>
    obtain ⟨htraced', hK⟩ := hf a s₁ r s' (hJ a rfl) h
    exact ⟨htraced.trans htraced', hK⟩

/-- Work that changes neither counts nor log. -/
theorem of_bare {x : Work α} {J : α → Workspace → Prop}
    (h : ∀ s r s', I s → x.exec s = (r, s') →
      s'.data.bare = s.data.bare ∧ ∀ a, r = .ok a → J a s') : Honest I x J := by
  intro s r s' hs hr
  obtain ⟨hbare, hJ⟩ := h s r s' hs hr
  exact ⟨.of_bare hbare, hJ⟩

theorem pure {J : α → Workspace → Prop} {a : α} (h : ∀ s, I s → J a s) :
    Honest I (Pure.pure a) J := by
  refine of_bare ?_
  intro s r s' hs hr
  cases hr
  refine ⟨rfl, ?_⟩
  intro a' ha
  cases ha
  exact h s hs

theorem weaken {x : Work α} {J K : α → Workspace → Prop} (hx : Honest I x J)
    (h : ∀ a s, J a s → K a s) : Honest I x K := by
  intro s r s' hs hr
  obtain ⟨htraced, hJ⟩ := hx s r s' hs hr
  exact ⟨htraced, fun a ha => h a s' (hJ a ha)⟩

theorem ite {c : Prop} [Decidable c] {x y : Work α} {J : α → Workspace → Prop}
    (hx : Honest I x J) (hy : Honest I y J) : Honest I (if c then x else y) J := by
  split
  · exact hx
  · exact hy

theorem foldlM {x : β → α → Work β} (hx : ∀ b a, Honest I (x b a) fun _ => I) (l : List α)
    (b : β) : Honest I (l.foldlM x b) fun _ => I := by
  induction l generalizing b with
  | nil => exact pure fun _ hs => hs
  | cons a l ih =>
    rw [List.foldlM_cons]
    exact (hx b a).bind ih

end Honest

/-! ### Batches and queues -/

namespace Workspace

/-- The writers take statements, and all pin statements that wait, and `l` after them, find their
rows pinned. -/
structure Awaits (l : List PinStatement) (s : Workspace) : Prop extends s.Open where
  funds : s.data.bare.Funds (s.pins.pending ++ l)

end Workspace

variable {l : List PinStatement}

/-- Statements that find their rows pinned, carried out up to the first that fails. -/
theorem honest_forM_executePin (batch : List PinStatement) :
    Honest (fun s => s.Open ∧ s.pins.pending = [] ∧ s.data.bare.Funds (batch ++ l))
      (batch.forM Work.executePin) fun _ s => s.Awaits l := by
  induction batch with
  | nil =>
    refine Honest.pure ?_
    rintro s ⟨ho, hnone, hfunds⟩
    refine ⟨ho, ?_⟩
    rw [hnone]
    exact hfunds
  | cons p batch ih =>
    refine Honest.bind (J := fun _ s => s.Open ∧ s.pins.pending = [] ∧
      s.data.bare.Funds (batch ++ l)) ?_ fun _ => ih
    rintro s r s' ⟨ho, hnone, hfunded, hfunds⟩ h
    rw [Work.exec_executePin] at h
    have hbare := applyPin_bare s.data p
    cases hp : s.data.applyPin p with
    | error a =>
      rw [hp] at h
      cases h
      refine ⟨.of_bare rfl, ?_⟩
      intro u hu
      cases hu
    | ok d =>
      rw [hp] at h hbare
      cases h
      refine ⟨⟨[p], ?_, hfunded, fun _ _ => trivial⟩, ?_⟩
      · rw [applyPins_cons, hbare]
        rfl
      · intro u _
        exact ⟨⟨ho.pins, ho.views⟩, hnone, hfunds _ hbare⟩

theorem honest_executePins (batch : List PinStatement) :
    Honest (fun s => s.Open ∧ s.pins.pending = [] ∧ s.data.bare.Funds (batch ++ l))
      (Work.executePins batch) fun _ s => s.Awaits l := by
  refine Honest.bind (J := fun _ s => s.Open ∧ s.pins.pending = [] ∧
    s.data.bare.Funds (batch ++ l)) ?_ fun _ =>
      (honest_forM_executePin batch).bind fun _ => Honest.pure fun _ hs => hs
  refine Honest.of_bare ?_
  rintro s r s' ⟨ho, hnone, hfunds⟩ h
  have hframe := Work.frame_checkFault s
  rw [h] at hframe
  simp only at hframe
  rw [hframe]
  exact ⟨rfl, fun _ _ => ⟨⟨ho.pins, ho.views⟩, hnone, hfunds⟩⟩

theorem honest_flushPins : Honest (·.Awaits l) Work.flushPins fun _ s => s.Awaits l := by
  intro s r s' hs h
  cases hp : s.pins.pending with
  | nil =>
    rw [Work.exec_flushPins_of_nil hp] at h
    cases h
    exact ⟨.of_bare rfl, fun _ _ => hs⟩
  | cons p batch =>
    rw [Work.exec_flushPins_of_cons hp] at h
    have hcount : ∀ n, Honest (·.Awaits l)
        (do modify fun s : Workspace => { s with pins := s.pins.recordExecuted n }; pure n)
        fun _ s => s.Awaits l := by
      intro n
      refine Honest.of_bare ?_
      intro s r s' hs h
      cases h
      exact ⟨rfl, fun _ _ => ⟨⟨hs.pins, hs.views⟩, hs.funds⟩⟩
    have hfunds := hs.funds
    rw [hp] at hfunds
    have hbatch := (honest_executePins (l := l) (p :: batch)).bind hcount
    exact hbatch { s with pins := { s.pins with pending := [] } } r s'
      ⟨⟨hs.pins, hs.views⟩, rfl, hfunds⟩ h

/-- A statement that was the first to come after those that wait is the last of them now. -/
theorem honest_enqueuePin (p : PinStatement) :
    Honest (·.Awaits (p :: l)) (Work.enqueuePin p) fun _ s => s.Awaits l := by
  intro s r s' hs h
  rw [Work.exec_enqueuePin hs.toOpen] at h
  have hpushed : (s.pushedPin p).Awaits l := by
    refine ⟨⟨hs.pins, hs.views⟩, ?_⟩
    show s.data.bare.Funds ((s.pins.pending ++ [p]) ++ l)
    rw [List.append_assoc]
    exact hs.funds
  have hflush : Honest (·.Awaits l) (Work.flushPins >>= fun _ => pure p.sql)
      fun _ s => s.Awaits l := honest_flushPins.bind fun _ => Honest.pure fun _ hs => hs
  exact Honest.ite hflush (Honest.pure fun _ hs => hs) (s.pushedPin p) r s' hpushed h

theorem honest_enqueuePins (ops : List PinOperation) :
    Honest (·.Awaits (ops.map PinOperation.statement ++ l))
      (ops.mapM fun op => Work.enqueuePin op.statement) fun _ s => s.Awaits l := by
  induction ops with
  | nil => exact Honest.pure fun _ hs => hs
  | cons op ops ih =>
    rw [List.mapM_cons]
    exact (honest_enqueuePin op.statement).bind fun _ => ih.bind fun _ => Honest.pure fun _ hs => hs

theorem honest_flushViews : Honest (·.Awaits l) Work.flushViews fun _ s => s.Awaits l := by
  refine Honest.of_bare ?_
  intro s r s' hs h
  obtain ⟨n, hflush⟩ := Work.exec_flushViews s
  rw [hflush] at h
  cases h
  exact ⟨rfl, fun _ _ => ⟨⟨hs.pins, hs.views⟩, hs.funds⟩⟩

theorem honest_enqueueView (v : ViewStatement) :
    Honest (·.Awaits l) (Work.enqueueView v) fun _ s => s.Awaits l := by
  intro s r s' hs h
  rw [Work.exec_enqueueView hs.toOpen] at h
  have hpushed : (s.pushedView v).Awaits l := ⟨⟨hs.pins, hs.views⟩, hs.funds⟩
  have hflush : Honest (·.Awaits l) (Work.flushViews >>= fun _ => pure v.sql)
      fun _ s => s.Awaits l := honest_flushViews.bind fun _ => Honest.pure fun _ hs => hs
  exact Honest.ite hflush (Honest.pure fun _ hs => hs) (s.pushedView v) r s' hpushed h

theorem honest_enqueueViews (vs : List ViewStatement) :
    Honest (·.Awaits l) (vs.mapM Work.enqueueView) fun _ s => s.Awaits l := by
  induction vs with
  | nil => exact Honest.pure fun _ hs => hs
  | cons v vs ih =>
    rw [List.mapM_cons]
    exact (honest_enqueueView v).bind fun _ => ih.bind fun _ => Honest.pure fun _ hs => hs

/-! ### Plans -/

variable {reg : Registry} {w : Window} {v : ParsedView} {p : Plan} {d : StoreData}

/-- The operations of a plan find their rows pinned. -/
theorem funds_of_plan (hspaced : d.Spaced) (hd : d.Accounted reg w)
    (h : planDirect d.lookup reg w (d.views.find? v.id) v = .ok p) :
    d.Funds (p.operations.map PinOperation.statement) := by
  refine funds_operations (operations_sorted h) hd.pins ?_
  intro name t ht x hx
  exact (coverage_of_plan h (balanced_of_plan (hspaced name t ht) ht hx h)).1

/-- What waits finds its rows pinned, and once it has been carried out the pins are accounted for. -/
structure Workspace.Ready (reg : Registry) (w : Window) (s : Workspace) : Prop
    extends s.Awaits [] where
  accounted : ∀ g, s.settled = .ok g → g.data.Spaced ∧ g.data.Accounted reg w

/-- Work that leaves what waits pinned, and pins that were accounted for accounted for. -/
theorem honest_of_keeps {α : Type} {x : Work α} {F : Ledger → Except Abort (α × Ledger)}
    (hx : Honest (·.Ready reg w) x fun _ s => s.Awaits []) (hkeeps : Keeps x F)
    (hF : ∀ g a g', g.data.Spaced → g.data.Accounted reg w → F g = .ok (a, g') →
      g'.data.Spaced ∧ g'.data.Accounted reg w) :
    Honest (·.Ready reg w) x fun _ s => s.Ready reg w := by
  intro s r s' hs h
  obtain ⟨htraced, hend⟩ := hx s r s' hs h
  refine ⟨htraced, ?_⟩
  rintro a rfl
  refine ⟨hend a rfl, ?_⟩
  intro g' hg'
  obtain ⟨_, hsettled⟩ := hkeeps.sound s s' a hs.toOpen h
  obtain ⟨g, hg, hdone⟩ := hsettled g' hg'
  obtain ⟨hspaced, haccounted⟩ := hs.accounted g hg
  exact hF g a g' hspaced haccounted hdone

theorem honest_planView (v : ParsedView) :
    Honest (·.Ready reg w) (Work.planView reg w v) fun p s =>
      s.Awaits (p.operations.map PinOperation.statement ++ []) := by
  refine Honest.of_bare ?_
  intro s r s' hs h
  rw [exec_planView] at h
  obtain ⟨hplan, rfl⟩ := Prod.mk.inj h
  refine ⟨rfl, ?_⟩
  rintro p rfl
  refine ⟨⟨hs.pins, hs.views⟩, ?_⟩
  have hwaiting : s.data.bare.Funds s.pins.pending := (funds_append.1 hs.funds).1
  rw [List.append_nil]
  refine funds_append.2 ⟨hwaiting, ?_⟩
  intro d₁ h₁
  have h₁' : s.data.bare.applyPins s.pins.pending = .ok d₁ := h₁
  rw [applyPins_bare] at h₁'
  obtain ⟨d, hd, rfl⟩ := map_eq_ok.1 h₁'
  -- the plan is made for the data as they will be when all that waits has been carried out
  obtain ⟨g, hg, hbare⟩ : ∃ g, s.settled = .ok g ∧ g.data.bare = d.bare :=
    ⟨_, map_eq_ok.2 ⟨d, hd, rfl⟩, rfl⟩
  obtain ⟨hspaced, haccounted⟩ := hs.accounted g hg
  rw [← plan_of_settled reg w v hg] at hplan
  have hdirect := mapError_eq_ok.1 hplan
  rw [plan_eq_planDirect] at hdirect
  rw [← hbare, funds_bare]
  exact funds_of_plan hspaced haccounted hdirect

theorem honest_applyPlan (p : Plan) :
    Honest (·.Awaits (p.operations.map PinOperation.statement ++ l)) (Work.applyPlan p)
      fun _ s => s.Awaits l :=
  (honest_enqueuePins p.operations).bind fun _ =>
    (honest_enqueueViews p.statement.toList).bind fun _ => Honest.pure fun _ hs => hs

theorem honest_reconcileNext (sum : RunSummary) (v : ParsedView) :
    Honest (·.Ready reg w) (Work.reconcileNext reg w sum v) fun _ s => s.Ready reg w := by
  have hreconcile : Honest (·.Ready reg w) (Work.reconcile reg w v) fun _ s => s.Awaits [] :=
    (honest_planView v).bind fun p => (honest_applyPlan p).bind fun _ =>
      Honest.pure fun _ hs => hs
  refine honest_of_keeps (hreconcile.bind fun _ => Honest.pure fun _ hs => hs)
    (keeps_reconcileNext reg w sum v) ?_
  intro g sum' g' hspaced haccounted hmap
  obtain ⟨⟨p, g₁⟩, hpost, heq⟩ := map_eq_ok.1 hmap
  cases heq
  exact ⟨hspaced.of_skeleton (Ledger.skeleton_post hpost), haccounted.post hspaced hpost⟩

/-! ### Whole runs -/

variable {views : List ParsedView} {watermark : Option Instant}

theorem honest_reconcileAll (views : List ParsedView) :
    Honest (·.Ready reg w) (Work.reconcileAll reg w views) fun _ s => s.Ready reg w :=
  Honest.foldlM honest_reconcileNext views {}

theorem honest_finish (sum : RunSummary) :
    Honest (·.Awaits []) (Work.finish watermark sum) fun _ _ => True := by
  refine honest_flushPins.bind fun _ => honest_flushViews.bind fun _ => Honest.of_bare ?_
  intro s r s' hs h
  obtain ⟨s₁, hstored, hdata, _⟩ := exec_stored watermark sum s
  have hs₁ : s' = s₁ := (Prod.mk.inj (h.symm.trans hstored)).2
  refine ⟨?_, fun _ _ => trivial⟩
  rw [hs₁, hdata]
  cases watermark with
  | none => rfl
  | some t => rfl

theorem honest_update :
    Honest (·.Ready reg w) (Work.update reg w views watermark) fun _ _ => True :=
  ((honest_reconcileAll views).weaken fun _ _ hs => hs.toAwaits).bind honest_finish

theorem honest_truncate : Honest (·.Awaits l) Work.truncate fun _ s => s.Awaits l := by
  refine Honest.of_bare ?_
  intro s r s' hs h
  rw [exec_truncate] at h
  cases h
  exact ⟨rfl, fun _ _ => ⟨⟨hs.pins, hs.views⟩, hs.funds⟩⟩

theorem honest_resets (names : List String) :
    Honest (·.Awaits (names.map .reset ++ l))
      (names.forM fun name => do let _ ← Work.enqueuePin (.reset name)) fun _ s => s.Awaits l := by
  induction names with
  | nil => exact Honest.pure fun _ hs => hs
  | cons name names ih =>
    have hname : Honest (·.Awaits (.reset name :: (names.map .reset ++ l)))
        (Work.enqueuePin (.reset name) >>= fun _ => pure ())
        fun _ s => s.Awaits (names.map .reset ++ l) :=
      (honest_enqueuePin (.reset name)).bind fun _ => Honest.pure fun _ hs => hs
    exact hname.bind fun _ => ih

theorem honest_wipe :
    Honest (·.Ready reg w) (Work.wipe reg) fun _ s => s.Ready reg w := by
  have hawaits : Honest (·.Awaits (reg.tables.map .reset ++ [])) (Work.wipe reg)
      fun _ s => s.Awaits [] :=
    (honest_resets reg.tables).bind fun _ => honest_flushPins.bind fun _ => honest_truncate
  refine honest_of_keeps ?_ (keeps_wipe reg) ?_
  · intro s r s' hs h
    refine hawaits s r s' ⟨hs.toOpen, ?_⟩ h
    rw [List.append_nil]
    exact funds_append.2 ⟨(funds_append.1 hs.funds).1, fun d _ => funds_resets d reg.tables⟩
  · intro g u g' hspaced haccounted hmap
    obtain ⟨g₁, hwipe, heq⟩ := map_eq_ok.1 hmap
    cases heq
    exact ⟨hspaced.of_skeleton (Ledger.skeleton_wipe hwipe), haccounted.wipe hwipe⟩

theorem honest_rebuild :
    Honest (·.Ready reg w) (Work.rebuild reg w views watermark) fun _ _ => True :=
  honest_wipe.bind fun _ => honest_update

/-- A transaction begins with nothing waiting. -/
theorem ready_start (hspaced : d.Spaced) (hd : d.Accounted reg w) (f : Faults)
    (pinBatch viewBatch : Nat) : (Workspace.start d f pinBatch viewBatch).Ready reg w := by
  refine ⟨⟨Workspace.open_start d f pinBatch viewBatch, trivial⟩, ?_⟩
  intro g hg
  rw [Workspace.settled_start] at hg
  cases hg
  exact ⟨hspaced, hd⟩

end PinLedger
