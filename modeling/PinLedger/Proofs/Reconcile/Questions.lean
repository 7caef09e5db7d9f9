import PinLedger.Proofs.FirstMention
import PinLedger.Proofs.Reconcile.Snapping

/-!
# PinLedger.Proofs.Reconcile.Questions

The questions that a plan asks of a lookup. Planning is done once more while every question is
written down, also when it fails: the plan that remembers its answers asks what the plan that asks
every time asks, and leaves out each question that it has asked before.

* `Asking` — planning while questions are written down
* `planAsking`, `planDirectAsking` — the outcome of a plan and its questions, with and without memory
* `Condenses` — the same outcome, and of the questions each the first time only
* `plan_asks_once` — memory changes no plan, and no question is asked twice
-/

namespace PinLedger

/-- A table's column, and the instant to which the nearest row time is asked for. -/
abbrev Question := Column × Instant

/-- Planning while questions are written down in their order. They stay written when it fails. -/
abbrev Asking := ExceptT PlanError (StateM (List Question))

/-- A lookup that writes the question down before it answers. -/
def RowLookup.asking (lookup : RowLookup) (c : Column) (t : Instant) :
    Asking (Option Instant) := do
  modify (· ++ [(c, t)])
  match lookup.ask c t with
  | .ok answer => pure answer
  | .error e => throw e

namespace Asking

variable {α β : Type}

/-- The outcome after the questions of `asked`, and all questions with them. -/
def exec (x : Asking α) (asked : List Question) : Except PlanError α × List Question :=
  x.run.run asked

theorem exec_bind (x : Asking α) (f : α → Asking β) (asked : List Question) :
    (x >>= f).exec asked =
      match x.exec asked with
      | (.ok a, asked') => (f a).exec asked'
      | (.error e, asked') => (.error e, asked') := by
  unfold exec
  rw [ExceptT.run_bind, StateT.run_bind]
  rcases x.run.run asked with ⟨r, asked'⟩
  cases r with
  | error e => rfl
  | ok a => rfl

theorem exec_asking (lookup : RowLookup) (c : Column) (t : Instant) (asked : List Question) :
    (lookup.asking c t).exec asked = (lookup.ask c t, asked ++ [(c, t)]) := by
  unfold RowLookup.asking exec
  cases lookup.ask c t with
  | error e => rfl
  | ok a => rfl

theorem exec_snapDirect (lookup : RowLookup) (c : Column) (t : Instant) (asked : List Question) :
    (snapDirect lookup.asking c t).exec asked =
      (snapDirect lookup.ask c t, asked ++ [(c, t)]) := by
  unfold snapDirect
  rw [exec_bind, exec_asking]
  cases lookup.ask c t with
  | error e => rfl
  | ok a => rfl

end Asking

/-! ### With and without memory -/

/-- The memory holds the lookup's answers to just the questions that have been asked. -/
structure Recalls (lookup : RowLookup) (memory : SnapMemory) (asked : List Question) : Prop where
  faithful : Faithful lookup.ask memory
  unknown : ∀ q, memory.lookup q = none ↔ q ∉ asked

theorem recalls_nil (lookup : RowLookup) : Recalls lookup [] [] where
  faithful := faithful_nil lookup.ask
  unknown := by simp

theorem Recalls.again {lookup : RowLookup} {memory : SnapMemory} {asked : List Question}
    {q : Question} (h : Recalls lookup memory asked) (hq : q ∈ asked) :
    Recalls lookup memory (asked ++ [q]) where
  faithful := h.faithful
  unknown := by
    intro q'
    rw [h.unknown q', List.mem_append, List.mem_singleton]
    constructor
    · rintro hnot (hmem | rfl)
      · exact hnot hmem
      · exact hnot hq
    · intro hnot hmem
      exact hnot (.inl hmem)

theorem Recalls.new {lookup : RowLookup} {memory : SnapMemory} {asked : List Question}
    {c : Column} {t s : Instant} (h : Recalls lookup memory asked)
    (hs : snapDirect lookup.ask c t = .ok s) :
    Recalls lookup (((c, t), s) :: memory) (asked ++ [(c, t)]) where
  faithful := h.faithful.cons hs
  unknown := by
    intro q
    rw [List.lookup_cons, List.mem_append, List.mem_singleton]
    by_cases hq : q = (c, t)
    · simp [hq]
    · have hbeq : (q == (c, t)) = false := beq_eq_false_iff_ne.2 hq
      rw [hbeq]
      simp only [h.unknown q, hq, or_false]

/-- `x` remembers and `y` does not. From a memory of all that has been asked both come to the same
outcome, and of the questions of `y` only the first of each kind is asked by `x`. -/
def Condenses {α : Type} (lookup : RowLookup) (x : StateT SnapMemory Asking α) (y : Asking α) :
    Prop :=
  ∀ memory asked, Recalls lookup memory asked →
    ∃ memory', (x.run memory).exec asked.eraseDups =
        ((y.exec asked).1.map fun a => (a, memory'), (y.exec asked).2.eraseDups) ∧
      ∀ a, (y.exec asked).1 = .ok a → Recalls lookup memory' (y.exec asked).2

namespace Condenses

variable {α β : Type} {lookup : RowLookup}

theorem pure (a : α) : Condenses lookup (pure a) (pure a) := by
  intro memory asked hm
  exact ⟨memory, rfl, fun _ _ => hm⟩

theorem throw (e : PlanError) :
    Condenses lookup (throw e : StateT SnapMemory Asking α) (throw e) := by
  intro memory asked _
  exact ⟨memory, rfl, fun _ h => by cases h⟩

theorem bind {x : StateT SnapMemory Asking α} {y : Asking α}
    {f : α → StateT SnapMemory Asking β} {g : α → Asking β} (hx : Condenses lookup x y)
    (hf : ∀ a, Condenses lookup (f a) (g a)) : Condenses lookup (x >>= f) (y >>= g) := by
  intro memory asked hm
  obtain ⟨memory₁, hrun, hm₁⟩ := hx memory asked hm
  rw [StateT.run_bind, Asking.exec_bind, hrun, Asking.exec_bind]
  rcases hy : y.exec asked with ⟨r, asked₁⟩
  rw [hy] at hm₁
  cases r with
  | error e => exact ⟨memory₁, rfl, fun _ h => by cases h⟩
  | ok a => exact hf a memory₁ asked₁ (hm₁ a rfl)

/-- A question that has been asked is answered from memory; any other is asked and remembered. -/
theorem snapOnce (c : Column) (t : Instant) :
    Condenses lookup (snapOnce lookup.asking c t) (snapDirect lookup.asking c t) := by
  intro memory asked hm
  rw [Asking.exec_snapDirect]
  have hrun : (PinLedger.snapOnce lookup.asking c t).run memory =
      (memory.lookup (c, t)).elim
        (snapDirect lookup.asking c t >>= fun s => Pure.pure (s, ((c, t), s) :: memory))
        (fun s => Pure.pure (s, memory)) := by
    simp only [PinLedger.snapOnce, StateT.run_bind, StateT.run_get, pure_bind]
    cases memory.lookup (c, t) with
    | some s => rfl
    | none =>
      simp only [StateT.run_bind, StateT.run_monadLift, StateT.run_modify, StateT.run_pure,
        bind_assoc, pure_bind, monadLift_self, Option.elim_none]
  rw [hrun]
  cases hlookup : memory.lookup (c, t) with
  | some s =>
    have hasked : (c, t) ∈ asked := by
      refine Decidable.not_not.1 fun hnot => ?_
      rw [(hm.unknown (c, t)).2 hnot] at hlookup
      cases hlookup
    rw [hm.faithful c t s hlookup, eraseDups_concat_of_mem hasked]
    exact ⟨memory, rfl, fun _ _ => hm.again hasked⟩
  | none =>
    have hnew : (c, t) ∉ asked := (hm.unknown (c, t)).1 hlookup
    have hfirst : (c, t) ∉ asked.eraseDups := fun h => hnew (List.mem_eraseDups.1 h)
    simp only [Option.elim_none]
    rw [Asking.exec_bind, Asking.exec_snapDirect, eraseDups_concat_of_not_mem hnew]
    cases hs : snapDirect (m := Except PlanError) lookup.ask c t with
    | error e => exact ⟨memory, rfl, fun _ h => by cases h⟩
    | ok s => exact ⟨((c, t), s) :: memory, rfl, fun _ _ => hm.new hs⟩

end Condenses

/-- Condensing is kept by values, failures and sequences. -/
def condenses (lookup : RowLookup) : Correspondence (StateT SnapMemory Asking) Asking where
  Rel := Condenses lookup
  pure := Condenses.pure
  throw := Condenses.throw
  bind := Condenses.bind

/-- Writing questions down does not change the outcome. -/
def outcomes : Correspondence Asking (Except PlanError) where
  Rel x y := ∀ asked, (x.exec asked).1 = y
  pure := by
    intro α a asked
    rfl
  throw := by
    intro α e asked
    rfl
  bind := by
    intro α β x y f g hx hf asked
    rw [← hx asked, Asking.exec_bind]
    rcases x.exec asked with ⟨r, asked'⟩
    cases r with
    | error e => rfl
    | ok a => exact hf a asked'

section Plans

variable (lookup : RowLookup) (reg : Registry) (w : Window) (previous : Option ViewRecord)
variable (v : ParsedView)

/-- The plan that asks for each bound at most once, and the questions that it asks. -/
def planAsking : Except PlanError Plan × List Question :=
  ((planWith (snapOnce lookup.asking) reg w previous v).run' []).exec []

/-- The plan that asks for each bound whenever it comes up, and the questions that it asks. -/
def planDirectAsking : Except PlanError Plan × List Question :=
  (planWith (snapDirect lookup.asking) reg w previous v).exec []

theorem outcome_planDirectAsking :
    (planDirectAsking lookup reg w previous v).1 = planDirect lookup reg w previous v := by
  refine outcomes.planWith (fun c t asked => ?_) reg w previous v []
  rw [Asking.exec_snapDirect]

/-- Of the questions of a plan without memory, those that come up for the first time are asked. -/
theorem planAsking_eq :
    planAsking lookup reg w previous v =
      (planDirect lookup reg w previous v,
        (planDirectAsking lookup reg w previous v).2.eraseDups) := by
  obtain ⟨memory, hrun, _⟩ :=
    (condenses lookup).planWith Condenses.snapOnce reg w previous v [] [] (recalls_nil lookup)
  have hrun' : (planWith (snapOnce lookup.asking) reg w previous v).run' [] =
      (planWith (snapOnce lookup.asking) reg w previous v).run [] >>= fun p => pure p.1 :=
    map_eq_pure_bind _ _
  unfold planAsking
  rw [hrun', Asking.exec_bind]
  rw [List.eraseDups_nil] at hrun
  rw [hrun, ← outcome_planDirectAsking]
  unfold planDirectAsking
  rcases (planWith (snapDirect lookup.asking) reg w previous v).exec [] with ⟨r, asked⟩
  cases r with
  | error e => rfl
  | ok p => rfl

/-- Remembering what a lookup has answered changes neither the plan nor the error that there is
instead, and no question is asked twice: those of a plan without memory are asked, each where it
comes up first, until the plan is made or fails. -/
theorem plan_asks_once :
    plan lookup reg w previous v = planDirect lookup reg w previous v ∧
      planAsking lookup reg w previous v =
        (plan lookup reg w previous v,
          (planDirectAsking lookup reg w previous v).2.eraseDups) ∧
      (planAsking lookup reg w previous v).2.Nodup := by
  have hplan := plan_eq_planDirect lookup reg w previous v
  have hasking := planAsking_eq lookup reg w previous v
  refine ⟨hplan, hplan ▸ hasking, ?_⟩
  rw [hasking]
  exact nodup_eraseDups _

end Plans

/-- Two layers in one table: four bounds are snapped, and two are asked for. -/
example :
    let obs : Column := ⟨"obs", "time"⟩
    let reg := Registry.ofLayers [⟨"wind", "sky", "wind", obs⟩, ⟨"rain", "sky", "rain", obs⟩]
    let noon : Instant := ⟨43200, 0, by decide, by decide, by decide⟩
    let v : ParsedView := ⟨1, ["wind", "rain"], noon, .absolute, false, none, none⟩
    (planDirectAsking .dense reg (.ofMinutes 1) none v).2.length = 4 ∧
      (planAsking .dense reg (.ofMinutes 1) none v).2.length = 2 := by
  decide +kernel

end PinLedger
