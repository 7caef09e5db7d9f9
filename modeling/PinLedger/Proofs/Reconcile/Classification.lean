import PinLedger.Proofs.Reconcile.Operations
import PinLedger.Proofs.Reconcile.Transition
import PinLedger.Proofs.Run.Mirroring
import PinLedger.Proofs.Window

/-!
# PinLedger.Proofs.Reconcile.Classification

The case of a plan, the record that it leaves behind, and which way its operations go. A move is
judged by the distance of the two times. Outside of leap seconds that says whether their windows
meet; a leap second is not counted between times of different days, and so a move out of one may
count as an extension although the windows do not meet.

* `ReconcileCase.Fits` — when a case is that of a view and its former record
* `classify_eq_iff` — every view has exactly the case that fits
* `Plan.Leaves`, `leaves_of_plan` — what a plan leaves behind
* `Plan.Directed`, `directed_of_plan` — the directions of its operations
* `Window.Meets`, `near_iff_meets` — when two windows meet
* `plan_classified` — all of this of every plan
* `extended_across_midnight` — a move out of a leap second
-/

namespace PinLedger

variable {reg : Registry} {lookup : RowLookup} {w : Window} {previous : Option ViewRecord}
variable {r : ViewRecord} {v : ParsedView} {p : Plan} {layers : NameSet}

/-! ### Cases -/

/-- When a case is that of a view with this former record. -/
def ReconcileCase.Fits (w : Window) (previous : Option ViewRecord) (v : ParsedView) :
    ReconcileCase → Prop
  | .ignored => previous = none ∧ v.disabled = true
  | .created => previous = none ∧ v.disabled = false
  | .disabled => (∃ r, previous = some r) ∧ v.disabled = true
  | .unchanged => ∃ r, previous = some r ∧ v.disabled = false ∧ v.time = r.timeMain ∧
      ∀ layer, layer ∈ v.layers ↔ layer ∈ r.layers
  | .relayer => ∃ r, previous = some r ∧ v.disabled = false ∧ v.time = r.timeMain ∧
      ¬ ∀ layer, layer ∈ v.layers ↔ layer ∈ r.layers
  | .extend => ∃ r, previous = some r ∧ v.disabled = false ∧ v.time ≠ r.timeMain ∧
      v.time.distance r.timeOriginal ≤ 2 * w.halfWidth
  | .redo => ∃ r, previous = some r ∧ v.disabled = false ∧ v.time ≠ r.timeMain ∧
      2 * w.halfWidth < v.time.distance r.timeOriginal

theorem NameSet.isEmpty_diff_iff {s t : NameSet} :
    (s.diff t).isEmpty = true ↔ ∀ x ∈ s, x ∈ t := by
  unfold isEmpty
  rw [List.isEmpty_iff, List.eq_nil_iff_forall_not_mem]
  constructor
  · intro h x hx
    exact Decidable.not_not.1 fun hnot => h x (mem_diff.2 ⟨hx, hnot⟩)
  · intro h x hx
    obtain ⟨hs, ht⟩ := mem_diff.1 hx
    exact ht (h x hs)

/-- No layers are gone and none are new if the view and the record have the same ones. -/
theorem diffs_isEmpty_iff :
    ((r.layers.diff v.layerSet).isEmpty = true ∧ (v.layerSet.diff r.layers).isEmpty = true) ↔
      ∀ layer, layer ∈ v.layers ↔ layer ∈ r.layers := by
  rw [NameSet.isEmpty_diff_iff, NameSet.isEmpty_diff_iff]
  unfold ParsedView.layerSet
  simp only [NameSet.mem_ofList]
  constructor
  · rintro ⟨hgone, hnew⟩ layer
    exact ⟨hnew layer, hgone layer⟩
  · intro h
    exact ⟨fun layer hlayer => (h layer).2 hlayer, fun layer hlayer => (h layer).1 hlayer⟩

theorem fits_classifyUpdate (hd : v.disabled = false) :
    (classifyUpdate w r v).Fits w (some r) v := by
  unfold classifyUpdate
  by_cases htime : r.timeMain = v.time
  · rw [if_pos htime]
    by_cases hlayers : (r.layers.diff v.layerSet).isEmpty = true ∧
        (v.layerSet.diff r.layers).isEmpty = true
    · rw [if_pos hlayers]
      exact ⟨r, rfl, hd, htime.symm, diffs_isEmpty_iff.1 hlayers⟩
    · rw [if_neg hlayers]
      exact ⟨r, rfl, hd, htime.symm, fun h => hlayers (diffs_isEmpty_iff.2 h)⟩
  · rw [if_neg htime]
    by_cases hnear : v.time.distance r.timeOriginal ≤ 2 * w.halfWidth
    · have hoverlaps : w.overlaps r.timeOriginal v.time = true := decide_eq_true hnear
      rw [if_pos hoverlaps]
      exact ⟨r, rfl, hd, Ne.symm htime, hnear⟩
    · have hoverlaps : ¬ w.overlaps r.timeOriginal v.time = true :=
        fun h => hnear (of_decide_eq_true h)
      rw [if_neg hoverlaps]
      exact ⟨r, rfl, hd, Ne.symm htime, Nat.not_le.1 hnear⟩

theorem fits_classify (w : Window) (previous : Option ViewRecord) (v : ParsedView) :
    (classify w previous v).Fits w previous v := by
  cases previous with
  | none =>
    cases hd : v.disabled
    · simp only [classify, hd]
      exact ⟨rfl, hd⟩
    · simp only [classify, hd]
      exact ⟨rfl, hd⟩
  | some r =>
    cases hd : v.disabled
    · simp only [classify, hd]
      exact fits_classifyUpdate hd
    · simp only [classify, hd]
      exact ⟨⟨r, rfl⟩, hd⟩

/-- No two cases fit. -/
theorem ReconcileCase.Fits.unique {c c' : ReconcileCase} (h : c.Fits w previous v)
    (h' : c'.Fits w previous v) : c = c' := by
  cases previous with
  | none => cases c <;> cases c' <;> simp_all [Fits]
  | some r => cases c <;> cases c' <;> simp_all [Fits] <;> omega

theorem classify_eq_iff (c : ReconcileCase) :
    classify w previous v = c ↔ c.Fits w previous v := by
  constructor
  · rintro rfl
    exact fits_classify w previous v
  · exact (fits_classify w previous v).unique

/-! ### What is left behind -/

/-- A record that takes over what the view says. -/
structure ViewRecord.Follows (next : ViewRecord) (v : ParsedView) : Prop where
  timeMain : next.timeMain = v.time
  layers : ∀ layer, layer ∈ next.layers ↔ layer ∈ v.layers
  drivingLayer : next.drivingLayer = v.drivingLayer
  lastUpdate : ∀ t, v.lastUpdate = some t → next.lastUpdate = .told t

/-- What a plan leaves behind, by its case. -/
inductive Plan.Leaves (p : Plan) (previous : Option ViewRecord) (v : ParsedView) : Prop
  | nothing (hcase : p.case = .ignored) (hs : p.statement = none)
  | removal {r : ViewRecord} (hcase : p.case = .disabled) (hr : previous = some r)
      (hs : p.statement = some (.delete r.id))
  | insertion {next : ViewRecord} (hcase : p.case = .created)
      (hs : p.statement = some (.insert next)) (hid : next.id = v.id) (hnext : next.Follows v)
      (htime : next.timeOriginal = v.time)
  | update {r next : ViewRecord}
      (hcase : p.case = .unchanged ∨ p.case = .relayer ∨ p.case = .extend ∨ p.case = .redo)
      (hr : previous = some r) (hs : p.statement = some (.update next)) (hid : next.id = r.id)
      (hnext : next.Follows v)
      (htime : next.timeOriginal = if p.case = .redo then v.time else r.timeOriginal)

theorem follows_of_mirrors {next : ViewRecord} (h : Mirrors (some next) v) : next.Follows v := by
  rcases mirrors_cases h with ⟨_, hnone⟩ | ⟨_, r, hr, htime, hlayers, hdriving, hupdate⟩
  · cases hnone
  · cases hr
    refine ⟨htime, ?_, hdriving, ?_⟩
    · intro layer
      rw [hlayers]
      exact NameSet.mem_ofList
    · intro t ht
      rw [hupdate, ht]
      rfl

theorem leaves_of_plan (h : planDirect lookup reg w previous v = .ok p) : p.Leaves previous v := by
  have hcase := case_of_plan h
  have hs := statement_of_plan h
  have hfollows : ∀ next, nextRecord w previous v = some next → next.Follows v := by
    intro next hnext
    exact follows_of_mirrors (hnext ▸ mirrors_nextRecord previous)
  unfold nextRecord at hfollows
  rw [← hs] at hfollows
  cases previous with
  | none =>
    cases hd : v.disabled
    · simp only [classify, nextStatement, hd] at hcase hs
      exact .insertion hcase hs rfl (hfollows _ (by rw [hs]; rfl)) rfl
    · simp only [classify, nextStatement, hd] at hcase hs
      exact .nothing hcase hs
  | some r =>
    cases hd : v.disabled
    · simp only [classify, nextStatement, hd] at hcase hs
      rw [← hcase] at hs
      refine .update ?_ rfl hs rfl (hfollows _ (by rw [hs]; rfl)) rfl
      rw [hcase]
      unfold classifyUpdate
      split <;> split <;> simp
    · simp only [classify, nextStatement, hd] at hcase hs
      exact .removal hcase rfl hs

/-! ### Directions -/

/-- Which way the operations of a plan go, by its case. -/
structure Plan.Directed (p : Plan) : Prop where
  /-- All that goes down stands before all that goes up. -/
  sorted : p.operations = p.unpins ++ p.pins
  created : p.case = .created → p.unpins = []
  disabled : p.case = .disabled → p.pins = []
  idle : p.case = .ignored ∨ p.case = .unchanged → p.operations = []

theorem operations_eq_nil (h : planDirect lookup reg w previous v = .ok p)
    (hsteps : agenda reg w previous v = []) : p.operations = [] := by
  rw [List.eq_nil_iff_forall_not_mem]
  intro op hop
  obtain ⟨s, hs, _⟩ := step_of_operation h hop
  rw [hsteps] at hs
  cases hs

theorem directed_of_plan (h : planDirect lookup reg w previous v = .ok p) : p.Directed := by
  have hcase := case_of_plan h
  constructor
  case sorted => exact operations_sorted h
  case created =>
    intro hc
    obtain ⟨rfl, _⟩ := (classify_eq_iff _).1 (hcase.symm.trans hc)
    rw [Plan.unpins, List.filter_eq_nil_iff]
    intro op hop hdown
    obtain ⟨r, _, hr, _⟩ := layer_of_down h hop (by simpa using hdown)
    cases hr
  case disabled =>
    intro hc
    obtain ⟨⟨r, rfl⟩, hd⟩ := (classify_eq_iff _).1 (hcase.symm.trans hc)
    rw [Plan.pins, List.filter_eq_nil_iff]
    intro op hop hup
    obtain ⟨next, hnext⟩ := record_of_up h hop hup
    simp [nextRecord, nextStatement, hd, ViewStatement.record?] at hnext
  case idle =>
    rintro (hc | hc)
    · obtain ⟨rfl, hd⟩ := (classify_eq_iff _).1 (hcase.symm.trans hc)
      refine operations_eq_nil h ?_
      unfold agenda
      rw [hd]
    · obtain ⟨r, rfl, hd, htime, hlayers⟩ := (classify_eq_iff _).1 (hcase.symm.trans hc)
      have hset : r.layers = v.layerSet := by
        apply NameSet.ext
        intro layer
        rw [← hlayers]
        exact NameSet.mem_ofList.symm
      exact operations_eq_nil h (agenda_of_same hd htime.symm hset)

/-! ### Windows that meet -/

/-- Two ranges overlap if and only if they share an instant. -/
theorem TimeRange.overlaps_iff_exists {a b : TimeRange} :
    a.Overlaps b ↔ ∃ x, x ∈ a ∧ x ∈ b := by
  constructor
  · rintro ⟨hab, hba⟩
    rcases Instant.le_total a.start b.start with hle | hle
    · exact ⟨b.start, ⟨hle, hba⟩, Instant.le_refl _, b.start_le_stop⟩
    · exact ⟨a.start, ⟨Instant.le_refl _, a.start_le_stop⟩, hle, hab⟩
  · rintro ⟨x, hxa, hxb⟩
    exact ⟨Instant.le_trans hxa.1 hxb.2, Instant.le_trans hxb.1 hxa.2⟩

/-- Some instant lies within half a width of both times. -/
def Window.Meets (w : Window) (a b : Instant) : Prop :=
  ∃ x : Instant, x.isLeap = false ∧ x.distance a ≤ w.halfWidth ∧ x.distance b ≤ w.halfWidth

/-- Outside of leap seconds, windows meet in the middle if they meet at all. -/
theorem near_iff_meets {a b : Instant} (ha : a.isLeap = false) (hb : b.isLeap = false) :
    b.distance a ≤ 2 * w.halfWidth ↔ w.Meets a b := by
  rw [Instant.distance_eq hb ha]
  constructor
  · intro hnear
    have hboundsA := Instant.nanos_bounds ha
    have hboundsB := Instant.nanos_bounds hb
    obtain ⟨x, hx⟩ : ∃ x, a.add? ((b.nanos - a.nanos) / 2) = some x :=
      Instant.exists_add? ha (by omega) (by omega)
    obtain ⟨hleap, hnanos⟩ := Instant.nanos_of_add? ha hx
    refine ⟨x, hleap, ?_, ?_⟩
    · rw [Instant.distance_eq hleap ha]
      omega
    · rw [Instant.distance_eq hleap hb]
      omega
  · rintro ⟨x, hleap, hxa, hxb⟩
    rw [Instant.distance_eq hleap ha] at hxa
    rw [Instant.distance_eq hleap hb] at hxb
    omega

theorem meets_iff_around {a b : Instant} {ra rb : TimeRange} (ha : a.isLeap = false)
    (hb : b.isLeap = false) (hra : w.around? a = some ra) (hrb : w.around? b = some rb) :
    w.Meets a b ↔ ∃ x, x ∈ ra ∧ x ∈ rb := by
  have hca := Window.covers_of_around ha hra
  have hcb := Window.covers_of_around hb hrb
  rw [← near_iff_meets ha hb, ← TimeRange.overlaps_iff_exists, hca.overlaps_iff hcb,
    Instant.distance_eq hb ha]

/-- **The case of a plan, and what it leaves behind.** A plan has the case that fits the view and
its former record; by its case it leaves a record with what the view says or takes one away, and its
operations go down before they go up. Outside of leap seconds a move is an extension if the windows
of the first time and of the view meet, and is pinned anew if they do not. -/
theorem plan_classified (h : plan lookup reg w previous v = .ok p) :
    (∀ c, p.case = c ↔ c.Fits w previous v) ∧ p.Leaves previous v ∧ p.Directed ∧
      ∀ r, previous = some r → r.timeOriginal.isLeap = false → v.time.isLeap = false →
        (p.case = .extend ↔
          v.disabled = false ∧ v.time ≠ r.timeMain ∧ w.Meets r.timeOriginal v.time) ∧
        (p.case = .redo ↔
          v.disabled = false ∧ v.time ≠ r.timeMain ∧ ¬ w.Meets r.timeOriginal v.time) ∧
        ∀ ro rv, w.around? r.timeOriginal = some ro → w.around? v.time = some rv →
          (w.Meets r.timeOriginal v.time ↔ ∃ x, x ∈ ro ∧ x ∈ rv) := by
  rw [plan_eq_planDirect] at h
  have hfits : ∀ c, p.case = c ↔ c.Fits w previous v := by
    intro c
    rw [case_of_plan h]
    exact classify_eq_iff c
  refine ⟨hfits, leaves_of_plan h, directed_of_plan h, ?_⟩
  rintro r rfl horiginal htime
  have hmeets := near_iff_meets (w := w) horiginal htime
  refine ⟨?_, ?_, fun ro rv hro hrv => meets_iff_around horiginal htime hro hrv⟩
  · rw [hfits, ← hmeets]
    constructor
    · rintro ⟨_, hr, hmove⟩
      cases hr
      exact hmove
    · intro hmove
      exact ⟨r, rfl, hmove⟩
  · rw [hfits, ← hmeets, Nat.not_le]
    constructor
    · rintro ⟨_, hr, hmove⟩
      cases hr
      exact hmove
    · intro hmove
      exact ⟨r, rfl, hmove⟩

/-- The drifting view moves within the window of its first time, which it keeps. -/
theorem plan_classified_drifting :
    ∃ p, plan .dense weather hour (some drifting) drifted = .ok p ∧ p.case = .extend ∧
      hour.Meets drifting.timeOriginal drifted.time ∧ p.operations = p.unpins ++ p.pins := by
  obtain ⟨p, hplan⟩ : ∃ p, plan .dense weather hour (some drifting) drifted = .ok p :=
    exists_ok (by decide +kernel)
  obtain ⟨hfits, _, hdirected, hmoves⟩ := plan_classified hplan
  have hcase : p.case = .extend :=
    (hfits .extend).2 ⟨drifting, rfl, rfl, by decide, by decide⟩
  obtain ⟨hextend, _, _⟩ := hmoves drifting rfl (by decide) (by decide)
  exact ⟨p, hplan, hcase, (hextend.1 hcase).2.2, hdirected.sorted⟩

/-- Pinned half a second into a leap second at midnight. -/
def midnight : ViewRecord := { drifting with timeOriginal := leapRow, timeMain := leapRow }

/-- Moved to a minute and half a second after that midnight. -/
def pastMidnight : ParsedView := { drifted with time := afterMidnight }

/-- A move out of a leap second to the next day is an extension, for the leap second is not counted;
but the windows of the two times share no instant. -/
theorem extended_across_midnight :
    ∃ p ro rv, plan .dense weather minute (some midnight) pastMidnight = .ok p ∧
      p.case = .extend ∧ minute.around? midnight.timeOriginal = some ro ∧
      minute.around? pastMidnight.time = some rv ∧ ¬ ∃ x, x ∈ ro ∧ x ∈ rv := by
  obtain ⟨p, hplan⟩ : ∃ p, plan .dense weather minute (some midnight) pastMidnight = .ok p :=
    exists_ok (by decide +kernel)
  have hcase : p.case = .extend := by
    rw [plan_eq_planDirect] at hplan
    rw [case_of_plan hplan]
    decide
  refine ⟨p, ⟨⟨1742515170, 500000000, by decide, by decide, by decide⟩,
    ⟨1742515229, 500000000, by decide, by decide, by decide⟩, by decide⟩,
    ⟨⟨1742515230, 500000000, by decide, by decide, by decide⟩,
    ⟨1742515290, 500000000, by decide, by decide, by decide⟩, by decide⟩,
    hplan, hcase, by decide, by decide, ?_⟩
  rw [← TimeRange.overlaps_iff_exists]
  decide

end PinLedger
