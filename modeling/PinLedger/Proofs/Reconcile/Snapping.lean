import PinLedger.Reconcile.Plan

/-!
# PinLedger.Proofs.Reconcile.Snapping

Remembering the answers of a lookup while a view is planned changes nothing: a computation that asks
once for each bound follows the computation that asks whenever a bound comes up. Planning only ever
snaps, fails and goes on, so that whatever relates two ways to snap relates the plans made with them.

* `Correspondence`, `Correspondence.planWith` — ways to snap that correspond make plans that do
* `Faithful` — what is remembered is what the lookup answers
* `Follows` — the same value or error from every faithful memory, which stays faithful
* `plan_eq_planDirect` — the plan with remembered answers is the plan without
-/

namespace PinLedger

/-! ### Two ways to plan -/

/-- A relation between the computations of two monads that values, failures and sequences keep. -/
structure Correspondence (m n : Type → Type) [Monad m] [Monad n] [MonadExceptOf PlanError m]
    [MonadExceptOf PlanError n] where
  Rel : {α : Type} → m α → n α → Prop
  pure : ∀ {α : Type} (a : α), Rel (pure a) (pure a)
  throw : ∀ {α : Type} (e : PlanError), Rel (throw e : m α) (throw e)
  bind : ∀ {α β : Type} {x : m α} {y : n α} {f : α → m β} {g : α → n β},
    Rel x y → (∀ a, Rel (f a) (g a)) → Rel (x >>= f) (y >>= g)

namespace Correspondence

variable {m n : Type → Type} [Monad m] [Monad n] [MonadExceptOf PlanError m]
variable [MonadExceptOf PlanError n] (R : Correspondence m n)

theorem withinCalendar {α : Type} (o : Option α) :
    R.Rel (withinCalendar o) (withinCalendar o) := by
  cases o with
  | none => exact R.throw .overflow
  | some a => exact R.pure a

theorem mapM [LawfulMonad m] [LawfulMonad n] {α β : Type} {f : α → m β} {g : α → n β}
    (h : ∀ a, R.Rel (f a) (g a)) (l : List α) : R.Rel (l.mapM f) (l.mapM g) := by
  induction l with
  | nil => exact R.pure []
  | cons a l ih =>
    rw [List.mapM_cons, List.mapM_cons]
    exact R.bind (h a) fun b => R.bind ih fun bs => R.pure (b :: bs)

variable {snap : Column → Instant → m Instant} {snap' : Column → Instant → n Instant}

theorem snappedHull (h : ∀ c t, R.Rel (snap c t) (snap' c t)) (w : Window) (c : Column)
    (a b : Instant) : R.Rel (snappedHull snap w c a b) (snappedHull snap' w c a b) :=
  R.bind (R.withinCalendar _) fun _ => R.bind (h c _) fun _ => R.bind (h c _) fun _ => R.pure _

theorem operations (h : ∀ c t, R.Rel (snap c t) (snap' c t)) (w : Window) (s : PlanStep) :
    R.Rel (s.operations snap w) (s.operations snap' w) := by
  cases s with
  | cover l a b add => exact R.bind (R.snappedHull h w l.column a b) fun _ => R.pure _
  | move l a b b' =>
    exact R.bind (R.snappedHull h w l.column a b) fun _ =>
      R.bind (R.snappedHull h w l.column a b') fun _ =>
        R.bind (R.withinCalendar _) fun _ => R.pure _
  | unmapped view layer => exact R.throw _

/-- Plans correspond if they are made by snaps that do. -/
theorem planWith [LawfulMonad m] [LawfulMonad n] (h : ∀ c t, R.Rel (snap c t) (snap' c t))
    (reg : Registry) (w : Window) (previous : Option ViewRecord) (v : ParsedView) :
    R.Rel (planWith snap reg w previous v) (planWith snap' reg w previous v) :=
  R.bind (R.mapM (R.operations h w) _) fun _ => R.pure _

end Correspondence

/-! ### Planning with remembered answers -/

/-- A question that a plan may ask. -/
abbrev Ask := Column → Instant → Except PlanError (Option Instant)

/-- All remembered answers are those of the lookup. -/
def Faithful (ask : Ask) (memory : SnapMemory) : Prop :=
  ∀ c t s, memory.lookup (c, t) = some s → snapDirect ask c t = .ok s

theorem faithful_nil (ask : Ask) : Faithful ask [] := by
  intro c t s h
  cases h

theorem Faithful.cons {ask : Ask} {memory : SnapMemory} {c : Column} {t s : Instant}
    (hm : Faithful ask memory) (h : snapDirect ask c t = .ok s) :
    Faithful ask (((c, t), s) :: memory) := by
  intro c' t' s' hlookup
  rw [List.lookup_cons] at hlookup
  by_cases heq : ((c', t') == (c, t)) = true
  · rw [heq] at hlookup
    cases hlookup
    obtain ⟨rfl, rfl⟩ := Prod.mk.injEq .. ▸ eq_of_beq heq
    exact h
  · rw [Bool.not_eq_true] at heq
    rw [heq] at hlookup
    exact hm c' t' s' hlookup

/-- `x` gives what `y` gives, and keeps the memory faithful. -/
def Follows {α : Type} (ask : Ask) (x : StateT SnapMemory (Except PlanError) α)
    (y : Except PlanError α) : Prop :=
  ∀ memory, Faithful ask memory →
    match y with
    | .error e => x.run memory = .error e
    | .ok a => ∃ memory', x.run memory = .ok (a, memory') ∧ Faithful ask memory'

namespace Follows

variable {α β : Type} {ask : Ask}

theorem pure (a : α) : Follows ask (pure a) (pure a) := by
  intro memory hm
  exact ⟨memory, rfl, hm⟩

theorem throw (e : PlanError) :
    Follows ask (throw e : StateT SnapMemory (Except PlanError) α) (throw e) := by
  intro memory _
  rfl

theorem bind {x : StateT SnapMemory (Except PlanError) α} {y : Except PlanError α}
    {f : α → StateT SnapMemory (Except PlanError) β} {g : α → Except PlanError β}
    (hx : Follows ask x y) (hf : ∀ a, Follows ask (f a) (g a)) :
    Follows ask (x >>= f) (y >>= g) := by
  intro memory hm
  have h := hx memory hm
  rw [StateT.run_bind]
  cases y with
  | error e =>
    rw [h]
    rfl
  | ok a =>
    obtain ⟨memory', hrun, hm'⟩ := h
    rw [hrun]
    exact hf a memory' hm'

/-- A remembered answer is not asked for, and an answer is remembered. -/
theorem snapOnce (c : Column) (t : Instant) :
    Follows ask (snapOnce ask c t) (snapDirect ask c t) := by
  intro memory hm
  have hrun : (PinLedger.snapOnce ask c t).run memory =
      (memory.lookup (c, t)).elim
        ((snapDirect ask c t).map fun s => (s, ((c, t), s) :: memory))
        (fun s => .ok (s, memory)) := by
    simp only [PinLedger.snapOnce, StateT.run_bind, StateT.run_get, pure_bind]
    cases memory.lookup (c, t) with
    | some s => rfl
    | none => cases h : snapDirect (m := Except PlanError) ask c t <;> rfl
  cases hlookup : memory.lookup (c, t) with
  | some s =>
    rw [hlookup] at hrun
    rw [hm c t s hlookup]
    exact ⟨memory, hrun, hm⟩
  | none =>
    rw [hlookup] at hrun
    cases hsnap : snapDirect ask c t with
    | error e =>
      rw [hrun, hsnap]
      rfl
    | ok s =>
      refine ⟨((c, t), s) :: memory, ?_, hm.cons hsnap⟩
      rw [hrun, hsnap]
      rfl

end Follows

/-- Following is kept by values, failures and sequences. -/
def follows (ask : Ask) : Correspondence (StateT SnapMemory (Except PlanError)) (Except PlanError) where
  Rel := Follows ask
  pure := Follows.pure
  throw := Follows.throw
  bind := Follows.bind

/-- Asking for each bound once makes the plan that asking every time makes. -/
theorem plan_eq_planDirect (lookup : RowLookup) (reg : Registry) (w : Window)
    (previous : Option ViewRecord) (v : ParsedView) :
    plan lookup reg w previous v = planDirect lookup reg w previous v := by
  have hfollows : Follows lookup.ask (planWith (snapOnce lookup.ask) reg w previous v)
      (planWith (snapDirect lookup.ask) reg w previous v) :=
    (follows lookup.ask).planWith Follows.snapOnce reg w previous v
  have h := hfollows [] (faithful_nil _)
  unfold plan planDirect
  rw [StateT.run'_eq]
  cases hd : planWith (snapDirect lookup.ask) reg w previous v with
  | error e =>
    rw [hd] at h
    rw [h]
    rfl
  | ok p =>
    rw [hd] at h
    obtain ⟨memory, hrun, _⟩ := h
    rw [hrun]
    rfl

end PinLedger
