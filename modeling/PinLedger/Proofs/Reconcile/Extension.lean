import Mathlib.Data.List.Nodup
import PinLedger.Proofs.Layer.Registry
import PinLedger.Proofs.Reconcile.Classification
import PinLedger.Proofs.Reconcile.Unmapped

/-!
# PinLedger.Proofs.Reconcile.Extension

An extension never takes down what it keeps. Snapping keeps the order of instants, so that the row
nearest to the first time lies in the snapped hull before the move and in the one after it. The two
meet there, and only the strips at their edges are touched.

* `Table.exists_hull_holding` — a snapped hull holds what its first time is snapped to
* `PlanStep.binding?`, `nodup_bindings` — no binding comes up twice, unless a view is pinned anew
* `countP_operations_le` — a binding has two operations at most for every step about it
* `extension_keeps` — what an extension does to a binding of a layer that stays
-/

namespace PinLedger

variable {reg : Registry} {lookup : RowLookup} {w : Window} {previous : Option ViewRecord}
variable {r : ViewRecord} {v : ParsedView} {p : Plan} {s : PlanStep} {layer : String}
variable {b : MappedLayer} {ops : List PinOperation}

theorem Table.exists_hull_holding {t : Table} {o m : Instant} {ro rm : TimeRange}
    (hfree : ∀ y ∈ t.times, y.isLeap = false) (ho : w.Covers o ro) (hm : w.Covers m rm)
    (hw : 1000000000 ≤ w.halfWidth) :
    ∃ range, t.hull? w o m = some range ∧ range.start.isLeap = false ∧
      range.stop.isLeap = false ∧ t.snap o ∈ range := by
  obtain ⟨raw, hraw, hstart, hstop, hmem, _⟩ := Window.exists_hull_holding ho hm hw
  obtain ⟨hstart', hstop'⟩ := TimeRange.bounds_between (P := fun t => t.isLeap = false)
    (isLeap_snap hfree hstart) (isLeap_snap hfree hstop)
  refine ⟨.between (t.snap raw.start) (t.snap raw.stop), ?_, hstart', hstop', ?_⟩
  · unfold hull?
    rw [hraw]
    rfl
  · exact TimeRange.mem_between.2 (.inl ⟨snap_le_snap hfree hstart ho.leapFree hmem.1,
      snap_le_snap hfree ho.leapFree hstop hmem.2⟩)

/-! ### Steps about a binding -/

def PlanStep.binding? : PlanStep → Option MappedLayer
  | .cover l _ _ _ | .move l _ _ _ => some l
  | .unmapped _ _ => none

theorem bindings_stepsFor {step : MappedLayer → PlanStep}
    (hstep : ∀ l, (step l).binding? = some l) (view : Int) (layers : List String) :
    (layers.flatMap (stepsFor reg view step)).filterMap PlanStep.binding? =
      layers.flatMap reg.layersFor := by
  induction layers with
  | nil => rfl
  | cons layer layers ih =>
    rw [List.flatMap_cons, List.filterMap_append, ih, List.flatMap_cons]
    congr 1
    unfold stepsFor
    cases reg.layersFor layer with
    | nil => rfl
    | cons l ls => simp [List.filterMap_map, hstep]

/-- Unless the view is pinned anew, its steps are about the bindings of the layers that are asked
for, one after another. -/
theorem bindings_agenda (hredo : classify w previous v ≠ .redo) :
    (agenda reg w previous v).filterMap PlanStep.binding? =
      (askedLayers w previous v).flatMap reg.layersFor := by
  have hcover : ∀ r layers add, (coverSteps reg r layers add).filterMap PlanStep.binding? =
      layers.toList.flatMap reg.layersFor :=
    fun r layers _ => bindings_stepsFor (fun _ => rfl) r.id layers.toList
  have hmove : ∀ r next layers, (moveSteps reg r next layers).filterMap PlanStep.binding? =
      layers.toList.flatMap reg.layersFor :=
    fun r _ layers => bindings_stepsFor (fun _ => rfl) r.id layers.toList
  unfold agenda askedLayers
  cases previous with
  | none =>
    cases hd : v.disabled
    · exact hcover _ _ _
    · rfl
  | some r =>
    cases hd : v.disabled
    · have hcase : classify w (some r) v = classifyUpdate w r v := by
        simp only [classify, hd]
      rw [hcase] at hredo
      simp only [hcase, updateSteps, List.filterMap_append, List.flatMap_append, hcover]
      congr 2
      cases hc : classifyUpdate w r v
      case extend => exact hmove _ _ _
      case redo => exact absurd hc hredo
      all_goals rfl
    · exact hcover _ _ _

theorem nodup_askedLayers : (askedLayers w previous v).Nodup := by
  unfold askedLayers
  cases previous with
  | none =>
    cases v.disabled
    · exact v.layerSet.nodup
    · exact List.nodup_nil
  | some r =>
    cases v.disabled
    · have hkept : (if classify w (some r) v = .extend ∨ classify w (some r) v = .redo then
          (r.layers.inter v.layerSet).toList else []).Nodup := by
        split
        · exact NameSet.nodup _
        · exact List.nodup_nil
      -- gone, kept and new layers are told apart by which of the two sets they are in
      refine List.nodup_append.2 ⟨List.nodup_append.2 ⟨NameSet.nodup _, hkept, ?_⟩,
        NameSet.nodup _, ?_⟩
      · rintro x hgone y hy rfl
        split at hy
        · exact (NameSet.mem_diff.1 hgone).2 (NameSet.mem_inter.1 hy).2
        · cases hy
      · rintro x hx y hnew rfl
        have hnot := (NameSet.mem_diff.1 hnew).2
        rcases List.mem_append.1 hx with hgone | hkept
        · exact hnot (NameSet.mem_diff.1 hgone).1
        · split at hkept
          · exact hnot (NameSet.mem_inter.1 hkept).1
          · cases hkept
    · exact r.layers.nodup

theorem nodup_bindings (hdistinct : reg.Distinct) (hkeyed : reg.Keyed)
    (hredo : classify w previous v ≠ .redo) :
    ((agenda reg w previous v).filterMap PlanStep.binding?).Nodup := by
  rw [bindings_agenda hredo]
  -- within a layer bindings are distinct, and each of them names the layer under which it is found
  refine List.nodup_flatMap.2 ⟨fun layer _ => hdistinct layer, ?_⟩
  refine nodup_askedLayers.imp ?_
  intro layer layer' hne b hb hb'
  exact hne ((hkeyed layer b hb).symm.trans (hkeyed layer' b hb'))

/-! ### Operations about a binding -/

theorem countP_of_operations (h : s.operations (snapDirect lookup.ask) w = .ok ops) :
    ops.countP (·.layer = b) ≤ if s.binding? = some b then 2 else 0 := by
  cases s with
  | cover l t u add =>
    obtain ⟨range, _, rfl⟩ := hull_of_operations_cover h
    by_cases hl : l = b
    · simp [PlanStep.binding?, hl]
    · simp [PlanStep.binding?, hl]
  | move l t u u' =>
    obtain ⟨old, new, ds, _, _, hds, rfl⟩ := hulls_of_operations_move h
    by_cases hl : l = b
    · have hlength := length_edgeDelta? hds
      simpa [PlanStep.binding?, hl, List.countP_map, Function.comp_def] using hlength
    · simp [PlanStep.binding?, hl, List.countP_map, Function.comp_def]
  | unmapped view layer => cases h

theorem countP_of_mapM {ss : List PlanStep} {opss : List (List PinOperation)}
    (h : ss.mapM (PlanStep.operations (snapDirect lookup.ask) w) = .ok opss) :
    opss.flatten.countP (·.layer = b) ≤ 2 * (ss.filterMap PlanStep.binding?).count b := by
  induction ss generalizing opss with
  | nil =>
    cases h
    exact Nat.le_refl 0
  | cons s ss ih =>
    rw [List.mapM_cons] at h
    obtain ⟨ops, hops, h⟩ := bind_eq_ok.1 h
    obtain ⟨opss', hopss, h⟩ := bind_eq_ok.1 h
    cases h
    have hhead := countP_of_operations (b := b) hops
    have htail := ih hopss
    rw [List.flatten_cons, List.countP_append]
    cases hs : s.binding? with
    | none =>
      rw [hs] at hhead
      rw [List.filterMap_cons_none hs]
      simp only [reduceCtorEq, if_false] at hhead
      omega
    | some l =>
      rw [hs] at hhead
      rw [List.filterMap_cons_some hs, List.count_cons]
      by_cases hl : l = b
      · simp only [hl, if_true, beq_self_eq_true] at hhead ⊢
        omega
      · simp only [Option.some.injEq, hl, if_false, beq_iff_eq] at hhead ⊢
        omega

/-- Unless a view is pinned anew, its plan has two operations at most for every binding. -/
theorem countP_operations_le (hdistinct : reg.Distinct) (hkeyed : reg.Keyed)
    (hredo : classify w previous v ≠ .redo) (h : planDirect lookup reg w previous v = .ok p)
    (b : MappedLayer) : p.operations.countP (·.layer = b) ≤ 2 := by
  have honce := List.nodup_iff_count_le_one.1 (nodup_bindings hdistinct hkeyed hredo) b
  unfold planDirect planWith at h
  obtain ⟨opss, hopss, h⟩ := bind_eq_ok.1 h
  cases h
  have hcount := countP_of_mapM (b := b) hopss
  show List.countP _ (_ ++ _) ≤ 2
  rw [countP_sorted]
  omega

/-! ### What is kept -/

/-- The only step about a binding of a layer that stays, when a view moves within its window. -/
theorem step_of_kept (hkeyed : reg.Keyed) (hcase : classify w (some r) v = .extend)
    (hlayer : layer ∈ r.layers) (hkept : layer ∈ v.layerSet) (hb : b ∈ reg.layersFor layer)
    (hs : s ∈ agenda reg w (some r) v) (hbinding : s.binding? = some b) :
    s = .move b r.timeOriginal r.timeMain v.time := by
  obtain ⟨_, hr, henabled, _⟩ := (classify_eq_iff _).1 hcase
  cases due_agenda hs with
  | unmapped view layer => cases hbinding
  | down hr hlayer' hgone hb' =>
    cases hr
    cases hbinding
    have hsame := (hkeyed _ b hb').symm.trans (hkeyed layer b hb)
    rcases hgone with hnot | hdisabled | hredo
    · exact absurd hkept (hsame ▸ hnot)
    · rw [henabled] at hdisabled
      cases hdisabled
    · rw [hcase] at hredo
      cases hredo
  | move hr _ _ _ _ =>
    cases hr
    cases hbinding
    rfl
  | up hnext hlayer' hnew hb' =>
    cases hbinding
    have hsame := (hkeyed _ b hb').symm.trans (hkeyed layer b hb)
    rcases hnew with hnot | hredo
    · exact absurd hlayer (hsame ▸ hnot r rfl)
    · rw [hcase] at hredo
      cases hredo

/-- **An extension keeps what stays.** A view moves within its window, which is a minute or more
wide. For every binding of a layer that stays, the snapped hulls before and after the move hold the
row to which the first time is snapped, or that time itself if the table is empty. So they meet, and
what there is to do are the strips at their edges: two operations at most, none of which touches
anything that both of them hold. -/
theorem extension_keeps {d : StoreData} {t : Table} {minutes : Nat} (hminutes : 1 ≤ minutes)
    (hreg : reg.Built) (hcase : classify (.ofMinutes minutes) (some r) v = .extend)
    (hlayer : layer ∈ r.layers) (hkept : layer ∈ v.layerSet) (hb : b ∈ reg.layersFor layer)
    (hfind : d.tables.find? b.column.table = some t) (hcolumn : t.column = b.column.name)
    (hrows : ∀ y ∈ t.times, y.isLeap = false)
    (htimes : ∀ x ∈ [r.timeOriginal, r.timeMain, v.time],
      x.isLeap = false ∧ ((Window.ofMinutes minutes).around? x).isSome = true) :
    ∃ old new,
      d.lookup.hull (.ofMinutes minutes) b.column r.timeOriginal r.timeMain = .ok old ∧
      d.lookup.hull (.ofMinutes minutes) b.column r.timeOriginal v.time = .ok new ∧
      t.snap r.timeOriginal ∈ old ∧ t.snap r.timeOriginal ∈ new ∧
      (t.times = [] → t.snap r.timeOriginal = r.timeOriginal) ∧
      old.Overlaps new ∧
      edgeDelta? old new =
        ((startDelta? old new).bind fun front => (endDelta? old new).map (front ++ ·)) ∧
      ∀ p, plan d.lookup reg (.ofMinutes minutes) (some r) v = .ok p →
        (p.operations.filter (·.layer = b)).length ≤ 2 ∧
        ∀ op ∈ p.operations, op.layer = b → ∀ x ∈ op.range, ¬ (x ∈ old ∧ x ∈ new) := by
  have hcovers : ∀ x ∈ [r.timeOriginal, r.timeMain, v.time],
      ∃ range, (Window.ofMinutes minutes).Covers x range := by
    intro x hx
    obtain ⟨hfree, hsome⟩ := htimes x hx
    obtain ⟨range, hrange⟩ := Option.isSome_iff_exists.1 hsome
    exact ⟨range, Window.covers_of_around hfree hrange⟩
  obtain ⟨ro, ho⟩ := hcovers r.timeOriginal (by simp)
  obtain ⟨rm, hm⟩ := hcovers r.timeMain (by simp)
  obtain ⟨rv, hv⟩ := hcovers v.time (by simp)
  have hw : 1000000000 ≤ (Window.ofMinutes minutes).halfWidth := by
    show 1000000000 ≤ (nanosOfSeconds (minutes * 30)).natAbs
    rw [nanosOfSeconds, Instant.nanosPerSecond_eq]
    omega
  obtain ⟨old, hold, hos, hoe, hmemOld⟩ := Table.exists_hull_holding hrows ho hm hw
  obtain ⟨new, hnew, hns, hne, hmemNew⟩ := Table.exists_hull_holding hrows ho hv hw
  have hover : old.Overlaps new := TimeRange.overlaps_iff_exists.2 ⟨_, hmemOld, hmemNew⟩
  have hhull : ∀ {u range}, t.hull? (.ofMinutes minutes) r.timeOriginal u = some range →
      d.lookup.hull (.ofMinutes minutes) b.column r.timeOriginal u = .ok range := by
    intro u range h
    rw [hull_of_table hfind hcolumn, h]
    rfl
  refine ⟨old, new, hhull hold, hhull hnew, hmemOld, hmemNew, fun h => Table.snap_of_empty h _,
    hover, edgeDelta?_of_overlaps hover, ?_⟩
  intro p hp
  rw [plan_eq_planDirect] at hp
  constructor
  · rw [← List.countP_eq_length_filter]
    exact countP_operations_le hreg.distinct hreg.keyed (by rw [hcase]; decide) hp b
  · intro op hop hl x hx
    obtain ⟨s, hs, ops, hops, hop⟩ := step_of_operation hp hop
    have hbinding : s.binding? = some b := by
      rw [← hl]
      rcases layer_of_operations hops hop with ⟨t, u, rfl⟩ | ⟨t, u, u', rfl⟩
      · rfl
      · rfl
    -- the only step about the binding moves between the two hulls that meet
    rw [step_of_kept hreg.keyed hcase hlayer hkept hb hs hbinding] at hops
    obtain ⟨old', new', ds, hold', hnew', hds, rfl⟩ := hulls_of_operations_move hops
    rw [hhull hold] at hold'
    rw [hhull hnew] at hnew'
    cases hold'
    cases hnew'
    obtain ⟨shift, hshift, rfl⟩ := List.mem_map.1 hop
    exact not_mem_of_edgeDelta? hover hos hoe hns hne hds hshift hx

def windInObs : MappedLayer := ⟨"wind", "sky", "wind", ⟨"obs", "time"⟩⟩

/-- Rows at ten past three, at twenty to four and at half past four. -/
def sparseRows : Table :=
  ⟨"time", [⟨pastThree 10, 0⟩, ⟨pastThree 40, 0⟩, ⟨pastThree 90, 0⟩]⟩

def sparse : StoreData where
  tables := .ofList [("obs", sparseRows)]

/-- The first time of the drifting view, half past three, is snapped to the row at twenty to four.
That row stays pinned when the hull grows to the row at half past four. -/
theorem extension_keeps_drifting :
    ∃ old new p,
      sparse.lookup.hull hour windInObs.column (pastThree 30) (pastThree 30) = .ok old ∧
      sparse.lookup.hull hour windInObs.column (pastThree 30) (pastThree 50) = .ok new ∧
      pastThree 40 ∈ old ∧ pastThree 40 ∈ new ∧
      plan sparse.lookup weather hour (some drifting) drifted = .ok p ∧
      ∀ op ∈ p.operations, op.layer = windInObs → pastThree 40 ∉ op.range := by
  obtain ⟨p, hplan⟩ : ∃ p, plan sparse.lookup weather hour (some drifting) drifted = .ok p :=
    exists_ok (by decide +kernel)
  have hbuilt : weather.Built := ⟨_, rfl⟩
  have hcase : classify (.ofMinutes 60) (some drifting) drifted = .extend := by decide
  have hold : "wind" ∈ drifting.layers := by decide +kernel
  have hkept : "wind" ∈ drifted.layerSet := by decide +kernel
  have hb : windInObs ∈ weather.layersFor "wind" := by decide +kernel
  have hfind : sparse.tables.find? windInObs.column.table = some sparseRows := rfl
  obtain ⟨old, new, holdHull, hnewHull, hmemOld, hmemNew, _, _, _, hops⟩ :=
    extension_keeps (by decide) hbuilt hcase hold hkept hb hfind rfl (by decide) (by decide)
  have hsnap : sparseRows.snap drifting.timeOriginal = pastThree 40 := by decide
  rw [hsnap] at hmemOld hmemNew
  refine ⟨old, new, p, holdHull, hnewHull, hmemOld, hmemNew, hplan, ?_⟩
  intro op hop hl hx
  exact (hops p hplan).2 op hop hl _ hx ⟨hmemOld, hmemNew⟩

end PinLedger
