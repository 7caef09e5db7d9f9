import PinLedger.Proofs.Store.Ledger
import PinLedger.Proofs.ViewTable
import PinLedger.Store.Basic

/-!
# PinLedger.Proofs.Store.Batches

Batches are invisible. A workspace stands for the data that it will have when all that waits has
been carried out; pin statements and view statements touch different data, so the order in which the
two queues are flushed makes no difference.

* `Workspace.settled` — what a workspace stands for
* `Keeps` — work that does to what a workspace stands for what a function on ledgers does
* `Keeps.flushPins_bind`, `Keeps.flushViews_bind` — a flush makes no difference
* `keeps_enqueuePin`, `keeps_enqueueView` — a queued statement counts as carried out
-/

namespace PinLedger

/-- A workspace whose writers take statements. -/
structure Workspace.Open (s : Workspace) : Prop where
  pins : s.pins.released = false
  views : s.views.released = false

/-- The data with all that waits carried out, and the statements counted. -/
def Workspace.settled (s : Workspace) : Except Abort Ledger :=
  (s.data.applyPins s.pins.pending).map fun d => {
    data := { d with views := s.views.pending.foldl ViewTable.apply d.views }
    pins := s.pins.executed + s.pins.pending.length
    views := s.views.executed + s.views.pending.length }

/-- No pin batch has been told to fail. -/
def Workspace.Sound (s : Workspace) : Prop := s.faults.batchesLeft = none

namespace Work

variable {α β : Type}

/-- Work done in a workspace: its outcome, and the workspace that it leaves behind. -/
def exec (x : Work α) (s : Workspace) : Except Abort α × Workspace := x.run.run s

theorem exec_bind (x : Work α) (f : α → Work β) (s : Workspace) :
    (x >>= f).exec s =
      match x.exec s with
      | (.ok a, s') => (f a).exec s'
      | (.error e, s') => (.error e, s') := by
  unfold exec
  rw [ExceptT.run_bind, StateT.run_bind]
  rcases x.run.run s with ⟨r, s'⟩
  cases r with
  | error e => rfl
  | ok a => rfl

theorem exec_bind_ok {x : Work α} {f : α → Work β} {s s' : Workspace} {b : β}
    (h : (x >>= f).exec s = (.ok b, s')) :
    ∃ a s₁, x.exec s = (.ok a, s₁) ∧ (f a).exec s₁ = (.ok b, s') := by
  rw [exec_bind] at h
  rcases hx : x.exec s with ⟨r, s₁⟩
  rw [hx] at h
  cases r with
  | error e => cases h
  | ok a => exact ⟨a, s₁, rfl, h⟩

theorem exec_bind_of_ok {x : Work α} {f : α → Work β} {s s₁ : Workspace} {a : α}
    (h : x.exec s = (.ok a, s₁)) : (x >>= f).exec s = (f a).exec s₁ := by
  rw [exec_bind, h]

theorem exec_pure (a : α) (s : Workspace) : (pure a : Work α).exec s = (.ok a, s) := rfl

theorem exec_get_bind (f : Workspace → Work β) (s : Workspace) :
    ((get : Work Workspace) >>= f).exec s = (f s).exec s := rfl

theorem exec_modify_bind (u : Workspace → Workspace) (f : PUnit → Work β) (s : Workspace) :
    ((modify u : Work PUnit) >>= f).exec s = (f ⟨⟩).exec (u s) := rfl

/-! ### Batches carried out -/

theorem exec_executePin (p : PinStatement) (s : Workspace) :
    (executePin p).exec s =
      match s.data.applyPin p with
      | .error a => (.error a, s)
      | .ok data => (.ok (), { s with data }) := by
  unfold executePin
  rw [exec_get_bind]
  cases s.data.applyPin p with
  | error a => rfl
  | ok data => rfl

theorem exec_forM_executePin_ok {l : List PinStatement} {s : Workspace} {d : StoreData}
    (h : s.data.applyPins l = .ok d) :
    (l.forM executePin).exec s = (.ok ⟨⟩, { s with data := d }) := by
  induction l generalizing s with
  | nil =>
    cases h
    rfl
  | cons p l ih =>
    rw [applyPins_cons] at h
    obtain ⟨d₁, h₁, h⟩ := bind_eq_ok.1 h
    have hp : (executePin p).exec s = (.ok (), { s with data := d₁ }) := by
      rw [exec_executePin, h₁]
    show (executePin p >>= fun _ => l.forM executePin).exec s = _
    rw [exec_bind_of_ok hp]
    exact ih h

theorem applyPins_of_forM {l : List PinStatement} {s s' : Workspace} {u : PUnit}
    (h : (l.forM executePin).exec s = (.ok u, s')) :
    s.data.applyPins l = .ok s'.data ∧ s' = { s with data := s'.data } := by
  induction l generalizing s with
  | nil =>
    cases h
    exact ⟨rfl, rfl⟩
  | cons p l ih =>
    have hcons : (executePin p >>= fun _ => l.forM executePin).exec s = (.ok u, s') := h
    obtain ⟨_, s₁, h₁, h⟩ := exec_bind_ok hcons
    rw [exec_executePin] at h₁
    cases hp : s.data.applyPin p with
    | error a =>
      rw [hp] at h₁
      cases h₁
    | ok d₁ =>
      rw [hp] at h₁
      cases h₁
      obtain ⟨happly, heq⟩ := ih h
      refine ⟨?_, heq⟩
      rw [applyPins_cons, hp]
      exact happly

theorem exec_executeView (v : ViewStatement) (s : Workspace) :
    (executeView v).exec s =
      (.ok (s.data.views.touched v), { s with data := s.data.applyView v }) :=
  rfl

theorem exec_mapM_executeView (l : List ViewStatement) (s : Workspace) :
    (l.mapM executeView).exec s =
      (.ok (s.data.views.touchedEach l),
        { s with data := { s.data with views := l.foldl ViewTable.apply s.data.views } }) := by
  induction l generalizing s with
  | nil => rfl
  | cons v l ih =>
    have h := ih { s with data := s.data.applyView v }
    rw [List.mapM_cons, exec_bind_of_ok (exec_executeView v s), exec_bind_of_ok h]
    rfl

theorem exec_executeViews (l : List ViewStatement) (s : Workspace) :
    (executeViews l).exec s =
      (.ok (s.data.views.touchedEach l).sum,
        { s with data := { s.data with views := l.foldl ViewTable.apply s.data.views } }) := by
  unfold executeViews
  rw [exec_bind_of_ok (exec_mapM_executeView l s), exec_pure, List.sum_eq_foldl_nat]

/-- Without told failures a batch meets none. -/
theorem exec_checkFault {s : Workspace} (h : s.Sound) : checkFault.exec s = (.ok (), s) := by
  unfold checkFault
  rw [exec_get_bind]
  unfold Workspace.Sound at h
  rw [h]
  rfl

/-- Looking for a told failure uses it up at most. -/
theorem frame_checkFault (s : Workspace) :
    (checkFault.exec s).2 = { s with faults := (checkFault.exec s).2.faults } := by
  unfold checkFault
  rw [exec_get_bind]
  cases s.faults.batchesLeft with
  | none => rfl
  | some n =>
    cases n with
    | zero => rfl
    | succ n => rfl

theorem of_exec_checkFault {s s' : Workspace} (h : checkFault.exec s = (.ok (), s')) :
    s' = { s with faults := s'.faults } := by
  unfold checkFault at h
  rw [exec_get_bind] at h
  cases hb : s.faults.batchesLeft with
  | none =>
    rw [hb] at h
    cases h
    rfl
  | some n =>
    rw [hb] at h
    cases n with
    | zero => cases h
    | succ n =>
      cases h
      rfl

end Work

/-! ### Flushing -/

namespace Workspace

/-- The workspace whose waiting pin statements have led to the data `d`. -/
def flushedPins (s : Workspace) (d : StoreData) : Workspace :=
  { s with
    data := d
    pins := { s.pins with
      pending := []
      executed := s.pins.executed + s.pins.pending.length } }

/-- The workspace whose waiting view statements have been carried out. -/
def flushedViews (s : Workspace) : Workspace :=
  { s with
    data := { s.data with views := s.views.pending.foldl ViewTable.apply s.data.views }
    views := { s.views with
      pending := []
      executed := s.views.executed + s.views.pending.length } }

theorem settled_flushedPins {s : Workspace} {d : StoreData} (f : Faults)
    (h : s.data.applyPins s.pins.pending = .ok d) :
    ({ s.flushedPins d with faults := f } : Workspace).settled = s.settled := by
  unfold settled
  rw [h]
  rfl

theorem settled_flushedViews (s : Workspace) : s.flushedViews.settled = s.settled := by
  unfold settled flushedViews
  simp only [applyPins_withViews, List.foldl_nil]
  cases h : s.data.applyPins s.pins.pending with
  | error a => rfl
  | ok d =>
    have hviews : d.views = s.data.views := views_applyPins h
    simp only [Except.map, List.length_nil, Nat.add_zero, hviews]

end Workspace

namespace Work

theorem exec_flushViews_of_nil {s : Workspace} (h : s.views.pending = []) :
    flushViews.exec s = (.ok 0, s) := by
  obtain ⟨data, faults, pins, ⟨name, size, pending, executed, released⟩, warnings⟩ := s
  cases h
  rfl

theorem exec_flushViews_of_cons {s : Workspace} {v : ViewStatement} {l : List ViewStatement}
    (h : s.views.pending = v :: l) :
    flushViews.exec s =
      (executeViews (v :: l) >>= fun n => do
        modify fun s => { s with views := s.views.recordExecuted (v :: l).length }
        pure n).exec { s with views := { s.views with pending := [] } } := by
  obtain ⟨data, faults, pins, ⟨name, size, pending, executed, released⟩, warnings⟩ := s
  cases h
  rfl

theorem exec_flushViews (s : Workspace) : ∃ n, flushViews.exec s = (.ok n, s.flushedViews) := by
  cases hp : s.views.pending with
  | nil =>
    refine ⟨0, ?_⟩
    rw [exec_flushViews_of_nil hp]
    obtain ⟨data, faults, pins, ⟨name, size, pending, executed, released⟩, warnings⟩ := s
    cases hp
    rfl
  | cons v l =>
    have h := exec_executeViews (v :: l) { s with views := { s.views with pending := [] } }
    refine ⟨(s.data.views.touchedEach (v :: l)).sum, ?_⟩
    rw [exec_flushViews_of_cons hp, exec_bind_of_ok h]
    unfold Workspace.flushedViews
    rw [hp]
    rfl

theorem exec_flushPins_of_nil {s : Workspace} (h : s.pins.pending = []) :
    flushPins.exec s = (.ok 0, s) := by
  obtain ⟨data, faults, ⟨name, size, pending, executed, released⟩, views, warnings⟩ := s
  cases h
  rfl

theorem exec_flushPins_of_cons {s : Workspace} {p : PinStatement} {l : List PinStatement}
    (h : s.pins.pending = p :: l) :
    flushPins.exec s =
      (executePins (p :: l) >>= fun n => do
        modify fun s => { s with pins := s.pins.recordExecuted n }
        pure n).exec { s with pins := { s.pins with pending := [] } } := by
  obtain ⟨data, faults, ⟨name, size, pending, executed, released⟩, views, warnings⟩ := s
  cases h
  rfl

/-- If nothing waits, a flush comes to its end whatever has been told to fail. -/
theorem exec_flushPins_idle {s : Workspace} (h : s.pins.pending = []) :
    ∃ n, flushPins.exec s = (.ok n, s.flushedPins s.data) := by
  refine ⟨0, ?_⟩
  rw [exec_flushPins_of_nil h]
  obtain ⟨data, faults, ⟨name, size, pending, executed, released⟩, views, warnings⟩ := s
  cases h
  rfl

theorem exec_flushPins_ok {s : Workspace} {d : StoreData} (hs : s.Sound)
    (h : s.data.applyPins s.pins.pending = .ok d) :
    ∃ n, flushPins.exec s = (.ok n, s.flushedPins d) := by
  cases hp : s.pins.pending with
  | nil =>
    rw [hp] at h
    cases h
    exact exec_flushPins_idle hp
  | cons p l =>
    rw [hp] at h
    refine ⟨(p :: l).length, ?_⟩
    have hcheck := exec_checkFault (s := { s with pins := { s.pins with pending := [] } }) hs
    have hbatch := exec_forM_executePin_ok (s := { s with pins := { s.pins with pending := [] } }) h
    rw [exec_flushPins_of_cons hp, executePins, bind_assoc, exec_bind_of_ok hcheck, bind_assoc,
      exec_bind_of_ok hbatch]
    unfold Workspace.flushedPins
    rw [hp]
    rfl

/-- A flush that succeeds has carried out what waited; it may have used up a told fault. -/
theorem of_exec_flushPins {s s' : Workspace} {n : Nat} (h : flushPins.exec s = (.ok n, s')) :
    ∃ d f, s.data.applyPins s.pins.pending = .ok d ∧ s' = { s.flushedPins d with faults := f } := by
  cases hp : s.pins.pending with
  | nil =>
    rw [exec_flushPins_of_nil hp] at h
    obtain ⟨data, faults, ⟨name, size, pending, executed, released⟩, views, warnings⟩ := s
    cases hp
    cases h
    exact ⟨data, faults, rfl, rfl⟩
  | cons p l =>
    rw [exec_flushPins_of_cons hp, executePins, bind_assoc] at h
    obtain ⟨_, s₁, hcheck, h⟩ := exec_bind_ok h
    rw [bind_assoc] at h
    obtain ⟨_, s₂, hbatch, h⟩ := exec_bind_ok h
    obtain ⟨happly, hs₂⟩ := applyPins_of_forM hbatch
    have hs₁ := of_exec_checkFault hcheck
    rw [hs₁] at happly hs₂
    have hs' : s' = { s₂ with pins := s₂.pins.recordExecuted (p :: l).length } := by
      cases h
      rfl
    refine ⟨s₂.data, s₁.faults, happly, ?_⟩
    rw [hs', hs₂]
    unfold Workspace.flushedPins
    rw [hp]
    rfl

end Work

/-! ### Work on what a workspace stands for -/

/-- Work that does to what a workspace stands for what `F` does. It may come to its end only because
waiting statements that cannot be carried out have not been tried yet. -/
structure Keeps {α : Type} (x : Work α) (F : Ledger → Except Abort (α × Ledger)) : Prop where
  sound : ∀ s s' a, s.Open → x.exec s = (.ok a, s') →
    s'.Open ∧ ∀ g', s'.settled = .ok g' → ∃ g, s.settled = .ok g ∧ F g = .ok (a, g')
  complete : ∀ s g g' a, s.Open → s.Sound → s.settled = .ok g → F g = .ok (a, g') →
    ∃ s', x.exec s = (.ok a, s') ∧ s'.Open ∧ s'.Sound ∧ s'.settled = .ok g'

namespace Keeps

variable {α β : Type}

theorem pure (a : α) : Keeps (Pure.pure a) fun g => .ok (a, g) where
  sound := by
    intro s s' b ho h
    rw [Work.exec_pure] at h
    cases h
    exact ⟨ho, fun g' hg => ⟨g', hg, rfl⟩⟩
  complete := by
    intro s g g' b ho hs hg h
    cases h
    exact ⟨s, rfl, ho, hs, hg⟩

theorem bind {x : Work α} {f : α → Work β} {F : Ledger → Except Abort (α × Ledger)}
    {G : α → Ledger → Except Abort (β × Ledger)} (hx : Keeps x F) (hf : ∀ a, Keeps (f a) (G a)) :
    Keeps (x >>= f) fun g => F g >>= fun p => G p.1 p.2 where
  sound := by
    intro s s' b ho h
    obtain ⟨a, s₁, h₁, h₂⟩ := Work.exec_bind_ok h
    obtain ⟨ho₁, hx₁⟩ := hx.sound s s₁ a ho h₁
    obtain ⟨ho₂, hf₂⟩ := (hf a).sound s₁ s' b ho₁ h₂
    refine ⟨ho₂, ?_⟩
    intro g' hg'
    obtain ⟨g₁, hg₁, hG⟩ := hf₂ g' hg'
    obtain ⟨g, hg, hF⟩ := hx₁ g₁ hg₁
    exact ⟨g, hg, bind_eq_ok.2 ⟨(a, g₁), hF, hG⟩⟩
  complete := by
    intro s g g' b ho hs hg h
    obtain ⟨⟨a, g₁⟩, hF, hG⟩ := bind_eq_ok.1 h
    obtain ⟨s₁, h₁, ho₁, hs₁, hg₁⟩ := hx.complete s g g₁ a ho hs hg hF
    obtain ⟨s₂, h₂, ho₂, hs₂, hg₂⟩ := (hf a).complete s₁ g₁ g' b ho₁ hs₁ hg₁ hG
    refine ⟨s₂, ?_, ho₂, hs₂, hg₂⟩
    rw [Work.exec_bind_of_ok h₁]
    exact h₂

theorem congr {x : Work α} {F G : Ledger → Except Abort (α × Ledger)} (h : Keeps x F)
    (heq : ∀ g, F g = G g) : Keeps x G := by
  have hfun : F = G := funext heq
  rw [← hfun]
  exact h

/-- A flush of the pin statements makes no difference. -/
theorem flushPins_bind {k : Nat → Work α} {F : Ledger → Except Abort (α × Ledger)}
    (hk : ∀ n, Keeps (k n) F) : Keeps (Work.flushPins >>= k) F where
  sound := by
    intro s s' a ho h
    obtain ⟨n, s₁, h₁, h₂⟩ := Work.exec_bind_ok h
    obtain ⟨d, f, happly, rfl⟩ := Work.of_exec_flushPins h₁
    have ho₁ : ({ s.flushedPins d with faults := f } : Workspace).Open := ⟨ho.pins, ho.views⟩
    obtain ⟨ho₂, hF⟩ := (hk n).sound _ s' a ho₁ h₂
    refine ⟨ho₂, ?_⟩
    rw [Workspace.settled_flushedPins f happly] at hF
    exact hF
  complete := by
    intro s g g' a ho hs hg h
    obtain ⟨d, happly, _⟩ := map_eq_ok.1 hg
    obtain ⟨n, h₁⟩ := Work.exec_flushPins_ok hs happly
    rw [← Workspace.settled_flushedPins s.faults happly] at hg
    have ho₁ : (s.flushedPins d).Open := ⟨ho.pins, ho.views⟩
    rw [Work.exec_bind_of_ok h₁]
    exact (hk n).complete _ g g' a ho₁ hs hg h

/-- Nor does a flush of the view statements. -/
theorem flushViews_bind {k : Nat → Work α} {F : Ledger → Except Abort (α × Ledger)}
    (hk : ∀ n, Keeps (k n) F) : Keeps (Work.flushViews >>= k) F where
  sound := by
    intro s s' a ho h
    obtain ⟨n, h₁⟩ := Work.exec_flushViews s
    rw [Work.exec_bind_of_ok h₁] at h
    have ho₁ : s.flushedViews.Open := ⟨ho.pins, ho.views⟩
    obtain ⟨ho₂, hF⟩ := (hk n).sound _ s' a ho₁ h
    refine ⟨ho₂, ?_⟩
    rw [Workspace.settled_flushedViews] at hF
    exact hF
  complete := by
    intro s g g' a ho hs hg h
    obtain ⟨n, h₁⟩ := Work.exec_flushViews s
    rw [← Workspace.settled_flushedViews] at hg
    have ho₁ : s.flushedViews.Open := ⟨ho.pins, ho.views⟩
    rw [Work.exec_bind_of_ok h₁]
    exact (hk n).complete _ g g' a ho₁ hs hg h

end Keeps

/-! ### Queueing -/

namespace Workspace

/-- The workspace with one more waiting pin statement. -/
def pushedPin (s : Workspace) (p : PinStatement) : Workspace :=
  { s with pins := { s.pins with pending := s.pins.pending ++ [p] } }

/-- The workspace with one more waiting view statement. -/
def pushedView (s : Workspace) (v : ViewStatement) : Workspace :=
  { s with views := { s.views with pending := s.views.pending ++ [v] } }

theorem settled_pushedPin (s : Workspace) (p : PinStatement) :
    (s.pushedPin p).settled = s.settled >>= fun g => g.pin [p] := by
  unfold settled pushedPin
  simp only [applyPins_append]
  cases hd : s.data.applyPins s.pins.pending with
  | error a => rfl
  | ok d =>
    have hmove := applyPins_withViews d (s.views.pending.foldl ViewTable.apply d.views) [p]
    show (d.applyPins [p]).map _ =
      (({ d with views := s.views.pending.foldl ViewTable.apply d.views }).applyPins [p]).map _
    rw [hmove]
    cases hp : d.applyPins [p] with
    | error a => rfl
    | ok d' =>
      have hviews : d'.views = d.views := views_applyPins hp
      simp only [Except.map, List.length_append, List.length_singleton, Nat.add_assoc, hviews]

theorem settled_pushedView (s : Workspace) (v : ViewStatement) :
    (s.pushedView v).settled = s.settled.map fun g => g.change [v] := by
  unfold settled pushedView
  cases s.data.applyPins s.pins.pending with
  | error a => rfl
  | ok d =>
    simp only [Except.map, Ledger.change, List.foldl_append, List.length_append,
      List.length_singleton, Nat.add_assoc, List.foldl_cons, List.foldl_nil]

end Workspace

namespace Work

/-- A pin statement that is queued waits, or is carried out with all others when the batch is full.
-/
theorem exec_enqueuePin {s : Workspace} (ho : s.Open) (p : PinStatement) :
    (enqueuePin p).exec s =
      ((if s.pins.batchSize ≤ (s.pins.pending ++ [p]).length then
          flushPins >>= fun _ => pure p.sql
        else pure p.sql) : Work String).exec (s.pushedPin p) := by
  obtain ⟨data, faults, ⟨name, size, pending, executed, released⟩, views, warnings⟩ := s
  obtain ⟨hreleased, _⟩ := ho
  cases hreleased
  unfold enqueuePin
  rw [exec_get_bind]
  simp only [Queue.push, Bool.false_eq_true, if_false]
  rw [exec_modify_bind]
  by_cases hfull : size ≤ (pending ++ [p]).length
  · simp only [hfull, decide_true, if_true]
    rfl
  · simp only [hfull, decide_false, Bool.false_eq_true, if_false]
    rfl

theorem exec_enqueueView {s : Workspace} (ho : s.Open) (v : ViewStatement) :
    (enqueueView v).exec s =
      ((if s.views.batchSize ≤ (s.views.pending ++ [v]).length then
          flushViews >>= fun _ => pure v.sql
        else pure v.sql) : Work String).exec (s.pushedView v) := by
  obtain ⟨data, faults, pins, ⟨name, size, pending, executed, released⟩, warnings⟩ := s
  obtain ⟨_, hreleased⟩ := ho
  cases hreleased
  unfold enqueueView
  rw [exec_get_bind]
  simp only [Queue.push, Bool.false_eq_true, if_false]
  rw [exec_modify_bind]
  by_cases hfull : size ≤ (pending ++ [v]).length
  · simp only [hfull, decide_true, if_true]
    rfl
  · simp only [hfull, decide_false, Bool.false_eq_true, if_false]
    rfl

end Work

section Queueing

variable {α : Type}

theorem keeps_ite {c : Prop} [Decidable c] {x y : Work α}
    {F : Ledger → Except Abort (α × Ledger)} (hx : Keeps x F) (hy : Keeps y F) :
    Keeps (if c then x else y) F := by
  split
  · exact hx
  · exact hy

theorem keeps_enqueuePin (p : PinStatement) :
    Keeps (Work.enqueuePin p) fun g => (g.pin [p]).map fun g' => (p.sql, g') where
  sound := by
    intro s s' a ho h
    rw [Work.exec_enqueuePin ho] at h
    have hk := keeps_ite (c := s.pins.batchSize ≤ (s.pins.pending ++ [p]).length)
      (Keeps.flushPins_bind fun _ => Keeps.pure p.sql) (Keeps.pure p.sql)
    have ho₁ : (s.pushedPin p).Open := ⟨ho.pins, ho.views⟩
    obtain ⟨ho', hsettled⟩ := hk.sound _ s' a ho₁ h
    refine ⟨ho', ?_⟩
    intro g' hg'
    obtain ⟨g₁, hg₁, hpure⟩ := hsettled g' hg'
    cases hpure
    rw [Workspace.settled_pushedPin] at hg₁
    obtain ⟨g, hg, hpin⟩ := bind_eq_ok.1 hg₁
    exact ⟨g, hg, map_eq_ok.2 ⟨g', hpin, rfl⟩⟩
  complete := by
    intro s g g' a ho hs hg h
    obtain ⟨_, hpin, heq⟩ := map_eq_ok.1 h
    cases heq
    have hk := keeps_ite (c := s.pins.batchSize ≤ (s.pins.pending ++ [p]).length)
      (Keeps.flushPins_bind fun _ => Keeps.pure p.sql) (Keeps.pure p.sql)
    have ho₁ : (s.pushedPin p).Open := ⟨ho.pins, ho.views⟩
    have hg₁ : (s.pushedPin p).settled = .ok g' := by
      rw [Workspace.settled_pushedPin]
      exact bind_eq_ok.2 ⟨g, hg, hpin⟩
    rw [Work.exec_enqueuePin ho]
    exact hk.complete _ g' g' p.sql ho₁ hs hg₁ rfl

theorem keeps_enqueueView (v : ViewStatement) :
    Keeps (Work.enqueueView v) fun g => .ok (v.sql, g.change [v]) where
  sound := by
    intro s s' a ho h
    rw [Work.exec_enqueueView ho] at h
    have hk := keeps_ite (c := s.views.batchSize ≤ (s.views.pending ++ [v]).length)
      (Keeps.flushViews_bind fun _ => Keeps.pure v.sql) (Keeps.pure v.sql)
    have ho₁ : (s.pushedView v).Open := ⟨ho.pins, ho.views⟩
    obtain ⟨ho', hsettled⟩ := hk.sound _ s' a ho₁ h
    refine ⟨ho', ?_⟩
    intro g' hg'
    obtain ⟨g₁, hg₁, hpure⟩ := hsettled g' hg'
    cases hpure
    rw [Workspace.settled_pushedView] at hg₁
    obtain ⟨g, hg, rfl⟩ := map_eq_ok.1 hg₁
    exact ⟨g, hg, rfl⟩
  complete := by
    intro s g g' a ho hs hg h
    cases h
    have hk := keeps_ite (c := s.views.batchSize ≤ (s.views.pending ++ [v]).length)
      (Keeps.flushViews_bind fun _ => Keeps.pure v.sql) (Keeps.pure v.sql)
    have ho₁ : (s.pushedView v).Open := ⟨ho.pins, ho.views⟩
    have hg₁ : (s.pushedView v).settled = .ok (g.change [v]) := by
      rw [Workspace.settled_pushedView, hg]
      rfl
    rw [Work.exec_enqueueView ho]
    exact hk.complete _ _ _ v.sql ho₁ hs hg₁ rfl

end Queueing

end PinLedger
