import PinLedger.Proofs.Reconcile.Transition
import PinLedger.Store.Data

/-!
# PinLedger.Proofs.Reconcile.Unmapped

When a plan fails because a layer stands for no table. The registry is asked for layers one after
another, and only for those whose hulls change; the first one without a binding ends the plan.

* `askedLayers` — the layers that are asked for, in their order
* `Registry.firstUnmapped` — the first one without a binding
* `PlanStep.missing?`, `missing_agenda` — the steps for a view stand still at that layer
* `missing_of_plan`, `missing_of_error` — a plan fails there, if no instant leaves the calendar
* `plan_unmapped_iff` — when a plan fails, and what it names
-/

namespace PinLedger

variable {reg : Registry} {lookup : RowLookup} {w : Window} {previous : Option ViewRecord}
variable {v : ParsedView} {s : PlanStep} {e : PlanError}

/-- The layer ids that the plan of a view asks the registry for, in this order. The layers that stay
are asked for only if their hulls change. -/
def askedLayers (w : Window) (previous : Option ViewRecord) (v : ParsedView) : List String :=
  match previous, v.disabled with
  | none, true => []
  | some r, true => r.layers.toList
  | none, false => v.layerSet.toList
  | some r, false =>
    (r.layers.diff v.layerSet).toList ++
      (if classify w previous v = .extend ∨ classify w previous v = .redo then
        (r.layers.inter v.layerSet).toList
      else []) ++
      (v.layerSet.diff r.layers).toList

/-- The first of some layer ids that has no binding. -/
def Registry.firstUnmapped (reg : Registry) (layers : List String) : Option String :=
  layers.find? fun layer => (reg.layersFor layer).isEmpty

theorem Registry.firstUnmapped_append (layers layers' : List String) :
    reg.firstUnmapped (layers ++ layers') =
      (reg.firstUnmapped layers).or (reg.firstUnmapped layers') :=
  List.find?_append

theorem Registry.firstUnmapped_eq_none {layers : List String} :
    reg.firstUnmapped layers = none ↔ ∀ layer ∈ layers, reg.layersFor layer ≠ [] := by
  simp [firstUnmapped]

/-! ### Steps at which a plan stands still -/

/-- The view and the layer for which a step finds no binding. -/
def PlanStep.missing? : PlanStep → Option (Int × String)
  | .unmapped view layer => some (view, layer)
  | _ => none

/-- The first layer without a binding is where the steps for some layers stand still. -/
theorem missing_stepsFor {step : MappedLayer → PlanStep} (hstep : ∀ l, (step l).missing? = none)
    (view : Int) (layers : List String) :
    (layers.flatMap (stepsFor reg view step)).findSome? PlanStep.missing? =
      (reg.firstUnmapped layers).map (view, ·) := by
  induction layers with
  | nil => rfl
  | cons layer layers ih =>
    rw [List.flatMap_cons, List.findSome?_append, ih]
    unfold Registry.firstUnmapped stepsFor
    cases hl : reg.layersFor layer with
    | nil => simp [hl, PlanStep.missing?]
    | cons l ls =>
      -- a layer with bindings stops nothing, and the search goes on behind it
      have hnone : ((l :: ls).map step).findSome? PlanStep.missing? = none := by
        rw [List.findSome?_eq_none_iff]
        intro s hs
        obtain ⟨l', _, rfl⟩ := List.mem_map.1 hs
        exact hstep l'
      rw [hnone]
      simp [hl]

theorem missing_coverSteps (r : ViewRecord) (layers : NameSet) (add : Bool) :
    (coverSteps reg r layers add).findSome? PlanStep.missing? =
      (reg.firstUnmapped layers.toList).map (r.id, ·) :=
  missing_stepsFor (fun _ => rfl) r.id layers.toList

theorem missing_moveSteps (r next : ViewRecord) (layers : NameSet) :
    (moveSteps reg r next layers).findSome? PlanStep.missing? =
      (reg.firstUnmapped layers.toList).map (r.id, ·) :=
  missing_stepsFor (fun _ => rfl) r.id layers.toList

theorem missing_agenda (reg : Registry) (w : Window) (previous : Option ViewRecord)
    (v : ParsedView) :
    (agenda reg w previous v).findSome? PlanStep.missing? =
      (reg.firstUnmapped (askedLayers w previous v)).map (previous.elim v.id (·.id), ·) := by
  unfold agenda askedLayers
  cases previous with
  | none =>
    cases hd : v.disabled
    · exact missing_coverSteps v.freshRecord _ _
    · rfl
  | some r =>
    cases hd : v.disabled
    · have hcase : classify w (some r) v = classifyUpdate w r v := by
        simp only [classify, hd]
      simp only [hcase, updateSteps, List.findSome?_append, missing_coverSteps,
        Registry.firstUnmapped_append, Option.map_or]
      congr 2
      cases classifyUpdate w r v
      case extend => exact missing_moveSteps r _ _
      case redo =>
        simp only [List.findSome?_append, missing_coverSteps]
        exact Option.or_self
      all_goals rfl
    · exact missing_coverSteps r r.layers false

/-! ### Steps that fail -/

theorem plan_eq_error :
    plan lookup reg w previous v = .error e ↔
      (agenda reg w previous v).mapM (PlanStep.operations (snapDirect lookup.ask) w) =
        .error e := by
  rw [plan_eq_planDirect]
  unfold planDirect planWith
  rw [bind_eq_error]
  constructor
  · rintro (h | ⟨_, _, h⟩)
    · exact h
    · cases h
  · exact .inl

/-- A lookup that never fails leaves no other error to a hull than that of the calendar. -/
theorem error_of_hull (hlookup : ∀ c t, ∃ answer, lookup c t = .ok answer) {c : Column}
    {a b : Instant} (h : lookup.hull w c a b = .error e) : e = .overflow := by
  have hsnap : ∀ c t, ∃ s, snapDirect lookup.ask c t = .ok s := by
    intro c t
    obtain ⟨answer, hanswer⟩ := hlookup c t
    refine ⟨answer.getD t, ?_⟩
    unfold snapDirect RowLookup.ask
    rw [hanswer]
    rfl
  unfold RowLookup.hull snappedHull at h
  rcases bind_eq_error.1 h with h | ⟨raw, _, h⟩
  · cases hraw : w.hull? a b with
    | none =>
      rw [hraw] at h
      cases h
      rfl
    | some raw =>
      rw [hraw] at h
      cases h
  · obtain ⟨start, hstart⟩ := hsnap c raw.start
    obtain ⟨stop, hstop⟩ := hsnap c raw.stop
    rw [hstart, hstop] at h
    cases h

theorem error_of_operations (hlookup : ∀ c t, ∃ answer, lookup c t = .ok answer)
    (h : s.operations (snapDirect lookup.ask) w = .error e) :
    e = .overflow ∨ ∃ view layer, s = .unmapped view layer ∧ e = .unmapped view layer := by
  cases s with
  | cover l a b add =>
    rcases bind_eq_error.1 h with h | ⟨_, _, h⟩
    · exact .inl (error_of_hull hlookup h)
    · cases h
  | move l a b b' =>
    rcases bind_eq_error.1 h with h | ⟨old, _, h⟩
    · exact .inl (error_of_hull hlookup h)
    · rcases bind_eq_error.1 h with h | ⟨new, _, h⟩
      · exact .inl (error_of_hull hlookup h)
      · rcases bind_eq_error.1 h with h | ⟨_, _, h⟩
        · cases hdelta : edgeDelta? old new with
          | none =>
            rw [hdelta] at h
            cases h
            exact .inl rfl
          | some ds =>
            rw [hdelta] at h
            cases h
        · cases h
  | unmapped view layer =>
    cases h
    exact .inr ⟨view, layer, rfl, rfl⟩

theorem missing_of_operations {ops : List PinOperation}
    (h : s.operations (snapDirect lookup.ask) w = .ok ops) : s.missing? = none := by
  cases s with
  | cover l a b add => rfl
  | move l a b b' => rfl
  | unmapped view layer => cases h

theorem missing_of_plan {p : Plan} (h : plan lookup reg w previous v = .ok p) :
    (agenda reg w previous v).findSome? PlanStep.missing? = none := by
  rw [plan_eq_planDirect] at h
  obtain ⟨opss, hopss, _⟩ := bind_eq_ok.1 h
  rw [List.findSome?_eq_none_iff]
  intro s hs
  obtain ⟨ops, _, hops⟩ := ok_of_mapM hopss s hs
  exact missing_of_operations hops

/-- A plan fails at the first step without a binding, unless an instant leaves the calendar. -/
theorem missing_of_error (hlookup : ∀ c t, ∃ answer, lookup c t = .ok answer)
    (h : plan lookup reg w previous v = .error e) :
    e = .overflow ∨ ∃ view layer, e = .unmapped view layer ∧
      (agenda reg w previous v).findSome? PlanStep.missing? = some (view, layer) := by
  obtain ⟨front, s, back, hsteps, hfront, hs⟩ := mapM_eq_error.1 (plan_eq_error.1 h)
  -- the steps before the one that failed were carried out, so none of them was without a binding
  have hnone : front.findSome? PlanStep.missing? = none := by
    rw [List.findSome?_eq_none_iff]
    intro s' hs'
    obtain ⟨ops, hops⟩ := hfront s' hs'
    exact missing_of_operations hops
  rcases error_of_operations hlookup hs with he | ⟨view, layer, rfl, rfl⟩
  · exact .inl he
  · refine .inr ⟨view, layer, rfl, ?_⟩
    rw [hsteps, List.findSome?_append, hnone]
    rfl

/-- **Layers without a table.** With a lookup that always answers and all instants in the calendar,
a plan fails exactly if one of the layers that are asked for has no binding; it names the first one
of them and the view, and so does the error that the caller of the run gets. -/
theorem plan_unmapped_iff (hlookup : ∀ c t, ∃ answer, lookup c t = .ok answer)
    (hcalendar : plan lookup reg w previous v ≠ .error .overflow) :
    (∀ view layer, plan lookup reg w previous v = .error (.unmapped view layer) ↔
      view = previous.elim v.id (·.id) ∧
        reg.firstUnmapped (askedLayers w previous v) = some layer) ∧
    ((∃ p, plan lookup reg w previous v = .ok p) ↔
      ∀ layer ∈ askedLayers w previous v, reg.layersFor layer ≠ []) ∧
    ∀ view layer, ∃ err, (PlanError.unmapped view layer).toStoreError? = some err ∧
      (PlanError.unmapped view layer).toAbort = .error err ∧ err.kind = .validation ∧
      err.text = s!"layer '{layer}' has no table mapping" ∧
      err.context.entity = some "view" ∧ err.context.entityId = some (toString view) ∧
      err.context.details = some s!"layer_id={layer}" := by
  have hmissing := missing_agenda reg w previous v
  refine ⟨?_, ?_, fun view layer => ⟨.unmapped view layer, rfl, rfl, rfl, rfl, rfl, rfl, rfl⟩⟩
  · intro view layer
    cases hplan : plan lookup reg w previous v with
    | ok p =>
      rw [missing_of_plan hplan, eq_comm, Option.map_eq_none_iff] at hmissing
      simp [hmissing]
    | error e =>
      rcases missing_of_error hlookup hplan with rfl | ⟨view', layer', rfl, hfirst⟩
      · exact absurd hplan hcalendar
      · rw [hfirst, eq_comm, Option.map_eq_some_iff] at hmissing
        obtain ⟨first, hfirst, heq⟩ := hmissing
        cases heq
        simp [hfirst, eq_comm]
  · rw [← Registry.firstUnmapped_eq_none]
    cases hplan : plan lookup reg w previous v with
    | ok p =>
      rw [missing_of_plan hplan, eq_comm, Option.map_eq_none_iff] at hmissing
      simp [hmissing]
    | error e =>
      rcases missing_of_error hlookup hplan with rfl | ⟨view', layer', rfl, hfirst⟩
      · exact absurd hplan hcalendar
      · rw [hfirst, eq_comm, Option.map_eq_some_iff] at hmissing
        obtain ⟨first, hfirst, _⟩ := hmissing
        simp [hfirst]

/-- A registry with a table for rain, and none for wind and hail. -/
def rainOnly : Registry := .ofLayers [⟨"rain", "sky", "rain", ⟨"obs", "time"⟩⟩]

/-- The drifting view gives up rain, keeps wind and takes up hail. It moves within its window, and
so its plan fails at the layer that it keeps. -/
theorem plan_unmapped_iff_drifting :
    askedLayers hour (some drifting) drifted = ["rain", "wind", "hail"] ∧
      plan .dense rainOnly hour (some drifting) drifted = .error (.unmapped 1 "wind") := by
  have hcalendar : plan .dense rainOnly hour (some drifting) drifted ≠ .error .overflow := by
    intro hoverflow
    have hother : (match plan .dense rainOnly hour (some drifting) drifted with
      | .error .overflow => false
      | _ => true) = true := by decide +kernel
    rw [hoverflow] at hother
    cases hother
  have hplan := (plan_unmapped_iff (fun _ t => ⟨some t, rfl⟩) hcalendar).1 1 "wind"
  exact ⟨by decide +kernel, hplan.2 (by decide +kernel)⟩

end PinLedger
