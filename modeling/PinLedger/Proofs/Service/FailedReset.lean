import PinLedger.Proofs.Service.Provenance
import PinLedger.Proofs.Service.Remapping

/-!
# PinLedger.Proofs.Service.FailedReset

Resets that fail. The store is as it was before, yet a reset that has read the registry keeps it,
whatever becomes of it later. If no reset that failed has read another registry than the one in force,
then runs plan with the registry that the pins were made with, and take back what has been pinned. If
one has, the next run may take pins from tables that never had them and leave them where they are.

* `Engine.Anchored` — histories in which no reset that failed has read another registry
* `Engine.plansThrough` — the plans that have made the pins
* `Engine.Traceable`, `traceable_across` — the invariant: they were made with the registry in force
* `unpins_answer_pins` — what later runs take back
* `pins_forsaken` — a reset that fails after the mapping was edited
-/

namespace PinLedger

namespace Engine

/-- The job that has waited longest is of this kind. If the worker takes it now, it fails. -/
def Fails (e : Engine) (kind : TaskKind) : Prop :=
  (∃ job rest, e.service.jobs = job :: rest ∧ job.kind = kind) ∧
    ∃ err, (e.dequeue.perform kind).1 = .error err

/-- A reset that now fails reads no registry but the one in force. None completes. -/
def Heeds (e : Engine) : Change → Prop
  | .event .work => ¬ e.Completes .reset ∧ (e.Fails .reset → ∀ r,
      (e.site.readRegistry e.service.settings.mapping).1 = .ok r → r = e.service.registry)
  | _ => True

/-- The registry was in force when the service was created at a site without records, or has been
read by a reset that has completed. The resets since then have failed and have read no other. -/
inductive Anchored (e : Engine) : List Change → Registry → Prop
  | created (h : e.site.store.data.views = .empty) : Anchored e [] e.service.registry
  | reset {history : List Change} (h : (e.across history).Completes .reset) :
      Anchored e (history ++ [.event .work]) (e.across history).work.service.registry
  | keep {history : List Change} {reg : Registry} {x : Change} (h : Anchored e history reg)
      (hx : (e.across history).Heeds x) : Anchored e (history ++ [x]) reg

/-- What the worker is going to do, if it takes a job now and the job completes. -/
def pending (e : Engine) : Option Load :=
  match e.service.jobs with
  | [] => none
  | job :: _ =>
    match (e.dequeue.perform job.kind).1 with
    | .error _ => none
    | .ok _ => (e.dequeue.load job.kind).1.toOption

/-- The plans that have made the pins after a change, if these have made them before. -/
def planned (e : Engine) (plans : List Plan) : Change → List Plan
  | .event .work =>
    match e.pending with
    | none => plans
    | some l => (if l.fresh then [] else plans) ++
        l.plans e.service.settings.window e.site.store.data
  | _ => plans

/-- The plans that have made the pins after a history, if these have made them before. -/
def plansThrough (e : Engine) (plans : List Plan) : List Change → List Plan
  | [] => plans
  | x :: history => (e.change x).plansThrough (e.planned plans x) history

/-- The pins were made by plans with this registry, and it is in force. -/
structure Traceable (e : Engine) (reg : Registry) (plans : List Plan) : Prop where
  registry : e.service.registry = reg
  keyed : reg.Keyed
  grounded : Grounded reg plans e.site.store.data.views
  logged : pinStatements plans <:+ e.site.store.data.pinLog

variable {e : Engine} {reg : Registry} {plans : List Plan} {l : Load} {x : Change}
variable {history : List Change}

theorem across_concat (e : Engine) (history : List Change) (x : Change) :
    e.across (history ++ [x]) = (e.across history).change x :=
  List.foldl_append

theorem plansThrough_concat (e : Engine) (plans : List Plan) (history : List Change) (x : Change) :
    e.plansThrough plans (history ++ [x]) =
      (e.across history).planned (e.plansThrough plans history) x := by
  induction history generalizing e plans with
  | nil => rfl
  | cons y history ih => exact ih (e.change y) (e.planned plans y)

/-! ### The next run of the worker -/

/-- A run that fails leaves the data. A reset leaves the registry that it has read. -/
theorem work_of_fails {kind : TaskKind} (h : e.Fails kind) :
    e.work.site.store.data = e.site.store.data ∧ e.work.service.registry = e.reread kind := by
  obtain ⟨⟨job, rest, hjobs, rfl⟩, err, herr⟩ := h
  have hperform : e.dequeue.perform job.kind = (.error err, (e.dequeue.perform job.kind).2) :=
    Prod.ext herr rfl
  obtain ⟨_, _, hregistry, hdata⟩ := Core.mk.inj (core_work_of_cons hjobs hperform)
  have hsame := data_of_perform_error hperform
  refine ⟨hdata.trans hsame, hregistry.trans ?_⟩
  rw [registry_of_perform]
  cases job.kind with
  | reset => rfl
  | incremental => rfl

/-- A run that completes posts what the worker was going to do. -/
theorem work_of_pending (h : e.pending = some l) :
    (∃ sum, l.post e.service.settings.window e.site.store.data =
        .ok (sum, e.work.site.store.data)) ∧
      l.registry = e.work.service.registry ∧
      (e.Completes .reset ∧ l.fresh = true ∧
          (e.site.readRegistry e.service.settings.mapping).1 = .ok l.registry ∨
        ¬ e.Completes .reset ∧ l.fresh = false ∧ l.registry = e.service.registry) := by
  unfold pending at h
  cases hjobs : e.service.jobs with
  | nil =>
    rw [hjobs] at h
    cases h
  | cons job rest =>
    rw [hjobs] at h
    rcases hperform : e.dequeue.perform job.kind with ⟨r, e'⟩
    simp only [hperform] at h
    cases r with
    | error err => cases h
    | ok sum =>
      obtain ⟨l', e₁, hload, hregistry, hpost⟩ := posted_of_perform hperform
      rw [hload] at h
      cases h
      obtain ⟨_, _, hregistry', hdata⟩ := Core.mk.inj (core_work_of_cons hjobs hperform)
      refine ⟨⟨sum, ?_⟩, hregistry.trans hregistry'.symm, ?_⟩
      · rw [hdata]
        exact hpost
      · rcases kind_of_loaded hload with ⟨hkind, hfresh, hread⟩ | ⟨hkind, hfresh, rfl⟩
        · refine .inl ⟨⟨⟨job, rest, hjobs, hkind⟩, sum, ?_⟩, hfresh, hread⟩
          rw [← hkind, hperform]
        · have hsame : l.registry = e.dequeue.service.registry := registry_of_loaded hload
          refine .inr ⟨?_, hfresh, hsame⟩
          rintro ⟨⟨job', rest', hjobs', hreset⟩, _⟩
          rw [hjobs] at hjobs'
          cases hjobs'
          rw [hkind] at hreset
          cases hreset

/-- A worker that is not going to post anything has no job, or takes one that fails. -/
theorem work_of_not_pending (h : e.pending = none) : e.work = e ∨ ∃ kind, e.Fails kind := by
  unfold pending at h
  cases hjobs : e.service.jobs with
  | nil =>
    unfold work
    rw [hjobs]
    exact .inl rfl
  | cons job rest =>
    rw [hjobs] at h
    rcases hperform : e.dequeue.perform job.kind with ⟨r, e'⟩
    simp only [hperform] at h
    cases r with
    | error err =>
      refine .inr ⟨job.kind, ⟨job, rest, hjobs, rfl⟩, err, ?_⟩
      rw [hperform]
    | ok sum =>
      obtain ⟨l, e₁, hload, _⟩ := posted_of_perform hperform
      rw [hload] at h
      cases h

theorem pending_of_completes {kind : TaskKind} (h : e.Completes kind) : ∃ l, e.pending = some l := by
  cases hp : e.pending with
  | some l => exact ⟨l, rfl⟩
  | none =>
    obtain ⟨⟨job, rest, hjobs, rfl⟩, sum, hsum⟩ := h
    obtain ⟨l, e₁, hload, _⟩ := posted_of_perform (Prod.ext hsum rfl)
    unfold pending at hp
    rw [hjobs] at hp
    simp only [hsum, hload] at hp
    cases hp

/-! ### The invariant -/

/-- What a run that completes makes of the plans. -/
theorem Traceable.of_pending (hl : e.pending = some l) (hkeyed : l.registry.Keyed)
    (h : l.fresh = true ∨ e.Traceable l.registry plans) :
    e.work.Traceable l.registry (e.planned plans (.event .work)) := by
  obtain ⟨⟨sum, hpost⟩, hregistry, _⟩ := work_of_pending hl
  obtain ⟨hexecutes, _⟩ := Load.executes_of_post hpost
  have hplanned : e.planned plans (.event .work) = (if l.fresh then [] else plans) ++
      l.plans e.service.settings.window e.site.store.data := by
    unfold planned
    rw [hl]
  rw [hplanned]
  refine ⟨hregistry.symm, hkeyed, ?_, ?_⟩
  · exact Grounded.posted hkeyed (h.imp_right fun h => h.grounded) hpost
  · rw [hexecutes.log]
    unfold pinStatements Load.resets
    rcases h with hfresh | h
    · rw [hfresh]
      exact List.suffix_append _ _
    · cases l.fresh
      · obtain ⟨old, hold⟩ := h.logged
        refine ⟨old, ?_⟩
        rw [← hold]
        simp [pinStatements]
      · exact List.suffix_append _ _

/-- A change that heeds the registry in force keeps what the pins come from. -/
theorem Traceable.keep (h : e.Traceable reg plans) (hx : e.Heeds x) :
    (e.change x).Traceable reg (e.planned plans x) := by
  have hstill : ∀ e' : Engine, e'.service.registry = e.service.registry →
      e'.site.store.data = e.site.store.data → e'.Traceable reg plans := by
    intro e' hregistry hdata
    refine ⟨hregistry.trans h.registry, h.keyed, ?_, ?_⟩
    · rw [hdata]
      exact h.grounded
    · rw [hdata]
      exact h.logged
  cases x with
  | edit files catalog => exact hstill _ rfl rfl
  | event x =>
    cases x with
    | feed f givesAll => exact hstill _ rfl rfl
    | faults f => exact hstill _ rfl rfl
    | outages o => exact hstill _ rfl rfl
    | start kind =>
      obtain ⟨_, _, hregistry, hdata⟩ := Core.mk.inj (core_start e kind)
      exact hstill _ hregistry hdata
    | work =>
      cases hl : e.pending with
      | some l =>
        rcases (work_of_pending hl).2.2 with ⟨hreset, _⟩ | ⟨_, _, hregistry⟩
        · exact absurd hreset hx.1
        · have hreg : l.registry = reg := hregistry.trans h.registry
          rw [← hreg] at h ⊢
          exact .of_pending hl h.keyed (.inr h)
      | none =>
        have hplanned : e.planned plans (.event .work) = plans := by
          unfold planned
          rw [hl]
        rw [hplanned]
        rcases work_of_not_pending hl with hidle | ⟨kind, hfails⟩
        · refine hstill e.work ?_ ?_
          · rw [hidle]
          · rw [hidle]
        · obtain ⟨hdata, hregistry⟩ := work_of_fails hfails
          refine hstill e.work ?_ hdata
          rw [hregistry]
          cases kind with
          | incremental => rfl
          | reset =>
            unfold reread
            cases hread : (e.site.readRegistry e.service.settings.mapping).1 with
            | error err => rfl
            | ok r => exact hx.2 hfails r hread

theorem traceable_across (hkeyed : e.service.registry.Keyed) (h : e.Anchored history reg) :
    (e.across history).Traceable reg (e.plansThrough [] history) := by
  induction h with
  | created h =>
    refine ⟨rfl, hkeyed, ?_, List.nil_suffix⟩
    show Grounded _ [] e.site.store.data.views
    rw [h]
    exact .empty _
  | @reset history h =>
    rw [across_concat, plansThrough_concat]
    obtain ⟨l, hl⟩ := pending_of_completes h
    obtain ⟨_, hregistry, hkind⟩ := work_of_pending hl
    rw [← hregistry]
    rcases hkind with ⟨_, hfresh, hread⟩ | ⟨hnot, _⟩
    · exact .of_pending hl (keyed_of_readRegistry hread) (.inl hfresh)
    · exact absurd h hnot
  | @keep history reg x h hx ih =>
    rw [across_concat, plansThrough_concat]
    exact ih.keep hx

/-! ### Changes that heed the registry in force -/

/-- A history of changes that heed the registry in force. -/
def HeedsAll (e : Engine) : List Change → Prop
  | [] => True
  | x :: rest => e.Heeds x ∧ (e.change x).HeedsAll rest

theorem Anchored.append {rest : List Change} (h : e.Anchored history reg)
    (hrest : (e.across history).HeedsAll rest) : e.Anchored (history ++ rest) reg := by
  induction rest generalizing history with
  | nil =>
    rw [List.append_nil]
    exact h
  | cons x rest ih =>
    obtain ⟨hx, hrest⟩ := hrest
    rw [List.append_cons]
    refine ih (h.keep hx) ?_
    rw [across_concat]
    exact hrest

theorem fails_of_toOption {job : Job} {rest : List Job} {kind : TaskKind}
    (hjobs : e.service.jobs = job :: rest) (hkind : job.kind = kind)
    (hnone : (e.dequeue.perform kind).1.toOption = none) : e.Fails kind := by
  refine ⟨⟨job, rest, hjobs, hkind⟩, ?_⟩
  cases hfailed : (e.dequeue.perform kind).1 with
  | error err => exact ⟨err, rfl⟩
  | ok sum =>
    rw [hfailed] at hnone
    cases hnone

/-- A job that is no reset heeds the registry in force. -/
theorem heeds_of_incremental {job : Job} {rest : List Job} (hjobs : e.service.jobs = job :: rest)
    (hkind : job.kind = .incremental) : e.Heeds (.event .work) := by
  have hreset : ¬ ∃ job rest, e.service.jobs = job :: rest ∧ job.kind = TaskKind.reset := by
    rintro ⟨job', rest', hjobs', hreset⟩
    rw [hjobs] at hjobs'
    cases hjobs'
    rw [hkind] at hreset
    cases hreset
  exact ⟨fun h => hreset h.1, fun h => absurd h.1 hreset⟩

theorem heeds_of_fails (hfails : e.Fails .reset)
    (hread : (e.site.readRegistry e.service.settings.mapping).1.toOption =
      some e.service.registry) : e.Heeds (.event .work) := by
  refine ⟨?_, ?_⟩
  · rintro ⟨_, sum, hsum⟩
    obtain ⟨_, err, herr⟩ := hfails
    rw [hsum] at herr
    cases herr
  · intro _ r hr
    rw [hr] at hread
    exact Option.some.inj hread

/-! ### What later runs take back -/

/-- **What later runs take back.** A service is created and its mapping may be edited at any time. No
reset that has failed has read another registry than the one in force. Then the pins were made with
the registry in force. A reset that fails now leaves the data, and it leaves this registry in force if
and only if it reads no other. A run that is not from scratch plans with this registry: what the plan
of a view takes back has been pinned for it, binding by binding, by the plans that have made the pins,
and none of the bindings that they have pinned for a layer is left out when all of the layer goes. -/
theorem unpins_answer_pins {settings : RunSettings} {site : Site} {ws : List Warning}
    (hcreate : Engine.create settings site = (.ok e, ws)) (hanchored : e.Anchored history reg)
    {e₁ : Engine} (hafter : e.across history = e₁) :
    (e₁.service.registry = reg ∧
        pinStatements (e.plansThrough [] history) <:+ e₁.site.store.data.pinLog) ∧
      (e₁.Fails .reset → e₁.work.site.store.data = e₁.site.store.data ∧
        (e₁.work.service.registry = reg ↔
          ∀ r, (e₁.site.readRegistry settings.mapping).1 = .ok r → r = reg)) ∧
      ∀ l, (e₁.dequeue.load .incremental).1 = .ok l → l.registry = reg ∧
        ∀ done v todo sum g p g', l.views = done ++ v :: todo →
          Ledger.postAll reg settings.window {} ⟨e₁.site.store.data, 0, 0⟩ done = .ok (sum, g) →
          g.post reg settings.window v = .ok (p, g') →
          p.Answers (e.plansThrough [] history ++
            Ledger.plans reg settings.window ⟨e₁.site.store.data, 0, 0⟩ done)
            (g.data.views.find? v.id) v := by
  obtain ⟨registry, hread, rfl⟩ := of_create hcreate
  have htraceable := traceable_across (keyed_of_readRegistry hread) hanchored
  rw [hafter] at htraceable
  have hsettings : e₁.service.settings = settings := by rw [← hafter, settings_across]
  refine ⟨⟨htraceable.registry, htraceable.logged⟩, ?_, ?_⟩
  · intro hfails
    obtain ⟨hdata, hregistry⟩ := work_of_fails hfails
    refine ⟨hdata, ?_⟩
    rw [hregistry]
    unfold reread
    rw [hsettings, htraceable.registry]
    cases (e₁.site.readRegistry settings.mapping).1 with
    | error err => exact ⟨fun _ r hr => (nomatch hr), fun _ => rfl⟩
    | ok r =>
      refine ⟨?_, fun h => h r rfl⟩
      rintro hsame r' hr'
      cases hr'
      exact hsame
  · intro l hload
    have hloaded : e₁.dequeue.load .incremental = (.ok l, (e₁.dequeue.load .incremental).2) :=
      Prod.ext hload rfl
    have hregistry : l.registry = reg := by
      rcases kind_of_loaded hloaded with ⟨hkind, _⟩ | ⟨_, _, hsame⟩
      · cases hkind
      · have hregistry := registry_of_loaded hloaded
        rw [hsame] at hregistry
        exact hregistry.trans htraceable.registry
    refine ⟨hregistry, ?_⟩
    intro done v todo sum g p g' _ hposts hpost
    exact (htraceable.grounded.postAll htraceable.keyed hposts).answers hpost

end Engine

/-- The view is to be pinned. -/
def welcomed : List Change :=
  [.event (.feed { views := [guest false 40] } false), .event (.start .incremental)]

/-- The view is pinned, the mapping file is edited, and a reset is asked for that cannot reach the
feed. -/
def lapse (text : String) : List Change :=
  welcomed ++ [.event .work] ++ [.edit (.ofList [("layers.csv", text)]) annex.catalog,
    .event (.feed { failure := some "feed down" } false), .event (.start .reset)]

/-- The reset fails, the view is disabled, and a run is asked for. -/
def parting : List Change :=
  [.event .work] ++ [.event (.feed { views := [guest true 41] } false), .event (.start .incremental)]

/-- The mapping file says the same twice after the edit. -/
def echoed : List Change := lapse "stars,sky,stars\nstars,sky,stars"

theorem anchored_echoed : keeper.Anchored (echoed ++ parting) keeper.service.registry := by
  have hfirst : (keeper.across welcomed).service.jobs = [⟨.issued 1, .incremental, 0⟩] := by
    decide +kernel
  have hsecond : (keeper.across echoed).service.jobs = [⟨.issued 2, .reset, 1⟩] ∧
      ((keeper.across echoed).site.readRegistry
        (keeper.across echoed).service.settings.mapping).1.toOption =
          some (keeper.across echoed).service.registry ∧
      ((keeper.across echoed).dequeue.perform .reset).1.toOption = none := by
    decide +kernel
  obtain ⟨hjobs, hread, hnone⟩ := hsecond
  have hfails : (keeper.across echoed).Fails .reset := Engine.fails_of_toOption hjobs rfl hnone
  have hstart : keeper.Anchored [] keeper.service.registry := .created rfl
  have hwelcomed : keeper.Anchored ([] ++ welcomed) keeper.service.registry :=
    hstart.append ⟨trivial, trivial, trivial⟩
  have hpinned := hwelcomed.keep (Engine.heeds_of_incremental hfirst rfl)
  have hechoed : keeper.Anchored echoed keeper.service.registry :=
    hpinned.append ⟨trivial, trivial, trivial, trivial⟩
  have hreset := hechoed.keep (Engine.heeds_of_fails hfails hread)
  unfold parting
  rw [← List.append_assoc]
  exact hreset.append ⟨trivial, trivial, trivial⟩

/-- The service when the view is about to be disabled. -/
def parted : Engine := keeper.across (echoed ++ parting)

theorem unpins_answer_pins_echoed :
    ∃ v p g', Ledger.post keeper.service.registry charted.window
        ⟨parted.site.store.data, 0, 0⟩ v = .ok (p, g') ∧
      p.unpins.map (·.layer.column.table) = ["obs"] ∧
      p.Answers (keeper.plansThrough [] (echoed ++ parting))
        (parted.site.store.data.views.find? v.id) v := by
  have hrun : (parted.dequeue.load .incremental).1.toOption.any (fun l => l.views.length = 1 ∧
      ∀ v ∈ l.views, (Ledger.post keeper.service.registry charted.window
        ⟨parted.site.store.data, 0, 0⟩ v).toOption.map
          (fun r => r.1.unpins.map (·.layer.column.table)) = some ["obs"]) = true := by
    decide +kernel
  obtain ⟨l, hload, hone⟩ := (Option.any_eq_true _ _).1 hrun
  simp only [decide_eq_true_eq] at hone
  obtain ⟨hlength, hposts⟩ := hone
  obtain ⟨v, hviews⟩ := List.length_eq_one_iff.1 hlength
  have hv : v ∈ l.views := by
    rw [hviews]
    exact List.mem_singleton_self v
  obtain ⟨⟨p, g'⟩, hpost, hobs⟩ := Option.map_eq_some_iff.1 (hposts v hv)
  have hpost := ok_of_toOption hpost
  obtain ⟨_, _, hplans⟩ :=
    Engine.unpins_answer_pins create_keeper anchored_echoed (rfl : _ = parted)
  have hanswers := (hplans l (ok_of_toOption hload)).2 [] v [] {} ⟨parted.site.store.data, 0, 0⟩ p g'
    hviews rfl hpost
  rw [Ledger.plans, List.append_nil] at hanswers
  dsimp only at hanswers
  exact ⟨v, p, g', hpost, hobs, hanswers⟩

/-- The layer id stands for another table after the edit. -/
def estranged : Engine := keeper.across (lapse "stars,sky,comets")

/-- The reset fails and leaves the registry that it has read. The next run takes back the pin from the
other table, where it never was, and drops the record. The pin stays. -/
theorem pins_forsaken :
    estranged.Fails .reset ∧ estranged.service.registry.tables = ["obs"] ∧
      estranged.work.site.store.data = estranged.site.store.data ∧
      estranged.work.service.registry.tables = ["lab"] ∧
      (estranged.across parting).work.site.store.data.pinLog.map (·.table) = ["obs", "lab"] ∧
      (estranged.across parting).work.site.store.data.views.toList = [] ∧
      (estranged.across parting).work.site.store.data.tables.find? "obs" =
        some ⟨"time", [⟨pastThree 10, 1⟩]⟩ := by
  have hfacts : estranged.service.jobs = [⟨.issued 2, .reset, 1⟩] ∧
      (estranged.dequeue.perform .reset).1.toOption = none ∧
      estranged.service.registry.tables = ["obs"] ∧
      estranged.work.service.registry.tables = ["lab"] ∧
      (estranged.across parting).work.site.store.data.pinLog.map (·.table) = ["obs", "lab"] ∧
      (estranged.across parting).work.site.store.data.views.toList = [] ∧
      (estranged.across parting).work.site.store.data.tables.find? "obs" =
        some ⟨"time", [⟨pastThree 10, 1⟩]⟩ := by
    decide +kernel
  obtain ⟨hjobs, hnone, htables, hleft⟩ := hfacts
  have hfails : estranged.Fails .reset := Engine.fails_of_toOption hjobs rfl hnone
  exact ⟨hfails, htables, (Engine.work_of_fails hfails).1, hleft⟩

end PinLedger
