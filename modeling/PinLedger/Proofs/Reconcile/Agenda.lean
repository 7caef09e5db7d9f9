import PinLedger.Proofs.NameSet
import PinLedger.Proofs.Reconcile.Records

/-!
# PinLedger.Proofs.Reconcile.Agenda

The steps for a view. What goes down is about bindings of the layers of the former record, and every
binding of a layer that is given up goes down; what goes up is about bindings of the registry, and
every binding of a layer that is taken up goes up.

* `PlanStep.Due`, `due_agenda` — what the steps for a view may be
* `agenda_of_same` — a view that asks for what it has needs none
* `mem_agenda_of_added`, `mem_agenda_of_removed` — layers that are taken up, and layers that are
  given up
-/

namespace PinLedger

variable {reg : Registry} {w : Window} {previous : Option ViewRecord} {r : ViewRecord}
variable {v : ParsedView} {s : PlanStep} {layer : String} {b : MappedLayer}

/-! ### What a step may be -/

theorem mem_stepsFor {view : Int} {step : MappedLayer → PlanStep} {layers : List String}
    {s : PlanStep} (h : s ∈ layers.flatMap (stepsFor reg view step)) :
    (∃ layer, s = .unmapped view layer) ∨
      ∃ layer ∈ layers, ∃ l ∈ reg.layersFor layer, s = step l := by
  obtain ⟨layer, hlayer, h⟩ := List.mem_flatMap.1 h
  unfold stepsFor at h
  cases hl : reg.layersFor layer with
  | nil =>
    rw [hl] at h
    exact .inl ⟨layer, List.mem_singleton.1 h⟩
  | cons l ls =>
    rw [hl] at h
    obtain ⟨l', hl', rfl⟩ := List.mem_map.1 h
    exact .inr ⟨layer, hlayer, l', hl ▸ hl', rfl⟩

theorem nextRecord_of_enabled (hd : v.disabled = false) :
    nextRecord w (some r) v = some (updatedRecord r v (classify w (some r) v)) := by
  simp [nextRecord, nextStatement, classify, hd, ViewStatement.record?]

theorem nextRecord_of_extend (hcase : classify w (some r) v = .extend) :
    nextRecord w (some r) v = some (updatedRecord r v .extend) := by
  cases hd : v.disabled
  · rw [nextRecord_of_enabled hd, hcase]
  · simp [classify, hd] at hcase

/-- What the steps for a view with this former record may be. -/
inductive PlanStep.Due (reg : Registry) (w : Window) (previous : Option ViewRecord)
    (v : ParsedView) : PlanStep → Prop
  | unmapped (view : Int) (layer : String) : Due reg w previous v (.unmapped view layer)
  /-- A layer that is given up, or pinned anew. -/
  | down {r : ViewRecord} {layer : String} {b : MappedLayer} (hr : previous = some r)
      (hlayer : layer ∈ r.layers)
      (hgone : layer ∉ v.layerSet ∨ v.disabled = true ∨ classify w previous v = .redo)
      (hb : b ∈ reg.layersFor layer) :
      Due reg w previous v (.cover b r.timeOriginal r.timeMain false)
  /-- A layer that is kept, of a view that moves within its window. -/
  | move {r : ViewRecord} {layer : String} {b : MappedLayer} (hr : previous = some r)
      (hlayer : layer ∈ r.layers) (hkept : layer ∈ v.layerSet)
      (hcase : classify w previous v = .extend) (hb : b ∈ reg.layersFor layer) :
      Due reg w previous v (.move b r.timeOriginal r.timeMain v.time)
  /-- A layer that is taken up, or pinned anew. -/
  | up {next : ViewRecord} {layer : String} {b : MappedLayer}
      (hnext : nextRecord w previous v = some next) (hlayer : layer ∈ next.layers)
      (hnew : (∀ r ∈ previous, layer ∉ r.layers) ∨ classify w previous v = .redo)
      (hb : b ∈ reg.layersFor layer) :
      Due reg w previous v (.cover b next.timeOriginal next.timeMain true)

theorem due_coverSteps_down {r : ViewRecord} {layers : NameSet} (hr : previous = some r)
    (hlayers : ∀ layer ∈ layers, layer ∈ r.layers ∧
      (layer ∉ v.layerSet ∨ v.disabled = true ∨ classify w previous v = .redo))
    (h : s ∈ coverSteps reg r layers false) : s.Due reg w previous v := by
  rcases mem_stepsFor h with ⟨layer, rfl⟩ | ⟨layer, hlayer, b, hb, rfl⟩
  · exact .unmapped _ _
  · obtain ⟨hold, hgone⟩ := hlayers layer hlayer
    exact .down hr hold hgone hb

theorem due_coverSteps_up {next : ViewRecord} {layers : NameSet}
    (hnext : nextRecord w previous v = some next)
    (hlayers : ∀ layer ∈ layers, layer ∈ next.layers ∧
      ((∀ r ∈ previous, layer ∉ r.layers) ∨ classify w previous v = .redo))
    (h : s ∈ coverSteps reg next layers true) : s.Due reg w previous v := by
  rcases mem_stepsFor h with ⟨layer, rfl⟩ | ⟨layer, hlayer, b, hb, rfl⟩
  · exact .unmapped _ _
  · obtain ⟨hmem, hnew⟩ := hlayers layer hlayer
    exact .up hnext hmem hnew hb

theorem due_moveSteps {r next : ViewRecord} {layers : NameSet} (hr : previous = some r)
    (hmain : next.timeMain = v.time) (hcase : classify w previous v = .extend)
    (hlayers : ∀ layer ∈ layers, layer ∈ r.layers ∧ layer ∈ v.layerSet)
    (h : s ∈ moveSteps reg r next layers) : s.Due reg w previous v := by
  rcases mem_stepsFor h with ⟨layer, rfl⟩ | ⟨layer, hlayer, b, hb, rfl⟩
  · exact .unmapped _ _
  · obtain ⟨hold, hkept⟩ := hlayers layer hlayer
    rw [hmain]
    exact .move hr hold hkept hcase hb

theorem due_updateSteps {r : ViewRecord} {case : ReconcileCase} (hd : v.disabled = false)
    (hcase : classify w (some r) v = case)
    (h : s ∈ updateSteps reg r (updatedRecord r v case) case) : s.Due reg w (some r) v := by
  have hnext : nextRecord w (some r) v = some (updatedRecord r v case) := by
    rw [nextRecord_of_enabled hd, hcase]
  unfold updateSteps at h
  rcases List.mem_append.1 h with h | h
  · rcases List.mem_append.1 h with h | h
    · refine due_coverSteps_down rfl (fun layer hlayer => ?_) h
      obtain ⟨hold, hnot⟩ := NameSet.mem_diff.1 hlayer
      exact ⟨hold, .inl hnot⟩
    · cases case
      case extend => exact due_moveSteps rfl rfl hcase (fun _ => NameSet.mem_inter.1) h
      case redo =>
        rcases List.mem_append.1 h with h | h
        · refine due_coverSteps_down rfl (fun layer hlayer => ?_) h
          exact ⟨(NameSet.mem_inter.1 hlayer).1, .inr (.inr hcase)⟩
        · refine due_coverSteps_up hnext (fun layer hlayer => ?_) h
          exact ⟨(NameSet.mem_inter.1 hlayer).2, .inr hcase⟩
      all_goals cases h
  · refine due_coverSteps_up hnext (fun layer hlayer => ?_) h
    obtain ⟨hmem, hnot⟩ := NameSet.mem_diff.1 hlayer
    refine ⟨hmem, .inl ?_⟩
    rintro r' hr
    cases hr
    exact hnot

theorem due_agenda (h : s ∈ agenda reg w previous v) : s.Due reg w previous v := by
  unfold agenda at h
  cases previous with
  | none =>
    cases hd : v.disabled
    · rw [hd] at h
      have hnext : nextRecord w none v = some v.freshRecord := by
        simp [nextRecord, nextStatement, hd, ViewStatement.record?]
      refine due_coverSteps_up hnext (fun layer hlayer => ⟨hlayer, .inl ?_⟩) h
      rintro r hr
      cases hr
    · rw [hd] at h
      cases h
  | some r =>
    cases hd : v.disabled
    · rw [hd] at h
      have hcase : classify w (some r) v = classifyUpdate w r v := by
        simp only [classify, hd]
      exact due_updateSteps hd hcase h
    · rw [hd] at h
      exact due_coverSteps_down rfl (fun _ hlayer => ⟨hlayer, .inr (.inl hd)⟩) h

/-! ### A view that asks for what it has -/

theorem classifyUpdate_of_same {r : ViewRecord} (htime : r.timeMain = v.time)
    (hlayers : r.layers = v.layerSet) : classifyUpdate w r v = .unchanged := by
  unfold classifyUpdate
  rw [if_pos htime, hlayers, NameSet.diff_self, if_pos ⟨rfl, rfl⟩]

theorem agenda_of_same {r : ViewRecord} (hd : v.disabled = false) (htime : r.timeMain = v.time)
    (hlayers : r.layers = v.layerSet) : agenda reg w (some r) v = [] := by
  unfold agenda
  simp only [hd, classifyUpdate_of_same htime hlayers, updateSteps, updatedRecord, hlayers,
    NameSet.diff_self]
  rfl

/-! ### Layers that are taken up or given up -/

theorem mem_coverSteps (r : ViewRecord) {layers : NameSet} (add : Bool) {layer : String}
    {b : MappedLayer} (hlayer : layer ∈ layers) (hb : b ∈ reg.layersFor layer) :
    PlanStep.cover b r.timeOriginal r.timeMain add ∈ coverSteps reg r layers add := by
  refine List.mem_flatMap.2 ⟨layer, hlayer, ?_⟩
  unfold stepsFor
  cases hl : reg.layersFor layer with
  | nil =>
    rw [hl] at hb
    cases hb
  | cons b' bs =>
    rw [hl] at hb
    exact List.mem_map_of_mem hb

/-- A plan takes up the layers that its record has and the former record has not. -/
theorem mem_agenda_of_added {next : ViewRecord} {layer : String} {b : MappedLayer}
    (hnext : nextRecord w previous v = some next) (hlayer : layer ∈ next.layers)
    (hb : b ∈ reg.layersFor layer) (hprev : ∀ r ∈ previous, layer ∉ r.layers) :
    PlanStep.cover b next.timeOriginal next.timeMain true ∈ agenda reg w previous v := by
  unfold nextRecord nextStatement at hnext
  unfold agenda
  cases previous with
  | none =>
    cases hd : v.disabled
    · rw [hd] at hnext
      cases hnext
      exact mem_coverSteps v.freshRecord true hlayer hb
    · rw [hd] at hnext
      cases hnext
  | some r =>
    cases hd : v.disabled
    · rw [hd] at hnext
      cases hnext
      have hadded := NameSet.mem_diff.2 ⟨hlayer, hprev r rfl⟩
      exact List.mem_append_right _ (mem_coverSteps _ true hadded hb)
    · rw [hd] at hnext
      cases hnext

/-- A plan takes down the layers that the former record has and the view has not, and all of them if
the view is disabled or pinned anew. -/
theorem mem_agenda_of_removed {r : ViewRecord} (hlayer : layer ∈ r.layers)
    (hgone : layer ∉ v.layerSet ∨ v.disabled = true ∨ classify w (some r) v = .redo)
    (hb : b ∈ reg.layersFor layer) :
    PlanStep.cover b r.timeOriginal r.timeMain false ∈ agenda reg w (some r) v := by
  unfold agenda
  cases hd : v.disabled
  · refine List.mem_append_left _ ?_
    by_cases hkept : layer ∈ v.layerSet
    · have hredo : classifyUpdate w r v = .redo := by
        rcases hgone with hnot | hdisabled | hredo
        · exact absurd hkept hnot
        · rw [hd] at hdisabled
          cases hdisabled
        · unfold classify at hredo
          rw [hd] at hredo
          exact hredo
      have hboth := NameSet.mem_inter.2 ⟨hlayer, hkept⟩
      rw [hredo]
      exact List.mem_append_right _ (List.mem_append_left _ (mem_coverSteps r false hboth hb))
    · have hremoved := NameSet.mem_diff.2 ⟨hlayer, hkept⟩
      exact List.mem_append_left _ (mem_coverSteps r false hremoved hb)
  · exact mem_coverSteps r false hlayer hb

end PinLedger
