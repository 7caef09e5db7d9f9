import PinLedger.Proofs.Store.Ledger

/-!
# PinLedger.Proofs.Run.Mirroring

The records after a run mirror its views: a view that was posted has the record that it asks for,
and no other record has changed.

* `Mirrors` — the record of a view is as the view asks
* `mirrors_postAll` — every view that was posted has its record
* `find?_postAll`, `record_of_postAll` — the records of other views are as they were, that of a view
  is what the view leaves behind
* `mirrors_update`, `mirrors_rebuild` — whole runs, with the watermark that they store
-/

namespace PinLedger

/-- What is recorded for a view is as the view asks. -/
def Mirrors (record : Option ViewRecord) (v : ParsedView) : Prop :=
  if v.disabled then record = none
  else ∃ r, record = some r ∧ r.timeMain = v.time ∧ r.layers = v.layerSet ∧
    r.drivingLayer = v.drivingLayer ∧ r.lastUpdate = .ofTold v.lastUpdate

variable {reg : Registry} {w : Window} {g g' : Ledger} {v : ParsedView} {p : Plan}

theorem mirrors_cases {record : Option ViewRecord} (h : Mirrors record v) :
    (v.disabled = true ∧ record = none) ∨
      (v.disabled = false ∧ ∃ r, record = some r ∧ r.timeMain = v.time ∧ r.layers = v.layerSet ∧
        r.drivingLayer = v.drivingLayer ∧ r.lastUpdate = .ofTold v.lastUpdate) := by
  unfold Mirrors at h
  cases hd : v.disabled
  · rw [hd] at h
    exact .inr ⟨rfl, h⟩
  · rw [hd] at h
    exact .inl ⟨rfl, h⟩

/-- A view leaves the record behind that it asks for. -/
theorem mirrors_nextRecord (previous : Option ViewRecord) :
    Mirrors (nextRecord w previous v) v := by
  unfold Mirrors nextRecord nextStatement
  cases previous with
  | none =>
    cases v.disabled
    · exact ⟨v.freshRecord, rfl, rfl, rfl, rfl, rfl⟩
    · rfl
  | some r =>
    cases v.disabled
    · exact ⟨updatedRecord r v (classifyUpdate w r v), rfl, rfl, rfl, rfl, rfl⟩
    · rfl

/-- The records after a view was posted. -/
theorem find?_post (h : g.post reg w v = .ok (p, g')) (id : Int) :
    g'.data.views.find? id =
      if id = v.id then nextRecord w (g.data.views.find? v.id) v else g.data.views.find? id := by
  obtain ⟨hplan, d, hpins, hdata, _, _⟩ := Ledger.post_eq_ok h
  have hviews : d.views = g.data.views := views_applyPins hpins
  rw [hdata]
  show (p.statement.toList.foldl ViewTable.apply d.views).find? id = _
  rw [hviews, statement_of_plan hplan, find?_nextStatement]

theorem find?_postAll {views : List ParsedView} {sum sum' : RunSummary} {id : Int}
    (h : Ledger.postAll reg w sum g views = .ok (sum', g')) (hid : ∀ v ∈ views, v.id ≠ id) :
    g'.data.views.find? id = g.data.views.find? id := by
  induction views generalizing sum g with
  | nil =>
    cases h
    rfl
  | cons v views ih =>
    obtain ⟨⟨p, k⟩, hpost, h⟩ := bind_eq_ok.1 h
    have hne : id ≠ v.id := (hid v List.mem_cons_self).symm
    rw [ih h fun v' hv' => hid v' (List.mem_cons_of_mem v hv'), find?_post hpost, if_neg hne]

/-- If no id comes twice, the record of a view is what the view leaves behind by itself. -/
theorem record_of_postAll {views : List ParsedView} {sum sum' : RunSummary}
    (hnodup : (views.map (·.id)).Nodup)
    (h : Ledger.postAll reg w sum g views = .ok (sum', g')) (hv : v ∈ views) :
    g'.data.views.find? v.id = nextRecord w (g.data.views.find? v.id) v := by
  induction views generalizing sum g with
  | nil => cases hv
  | cons u views ih =>
    obtain ⟨⟨p, k⟩, hpost, hposts⟩ := bind_eq_ok.1 h
    obtain ⟨hu, hrest⟩ := List.nodup_cons.1 hnodup
    have hother : ∀ v' ∈ views, v'.id ≠ u.id := by
      intro v' hv' heq
      exact hu (List.mem_map.2 ⟨v', hv', heq⟩)
    rcases List.mem_cons.1 hv with rfl | hv
    · rw [find?_postAll hposts hother, find?_post hpost, if_pos rfl]
    · rw [ih hrest hposts hv, find?_post hpost, if_neg (hother v hv)]

/-- Every view that was posted has the record that it asks for, if no id comes twice. -/
theorem mirrors_postAll {views : List ParsedView} {sum sum' : RunSummary}
    (hnodup : (views.map (·.id)).Nodup)
    (h : Ledger.postAll reg w sum g views = .ok (sum', g')) :
    ∀ v ∈ views, Mirrors (g'.data.views.find? v.id) v := by
  intro v hv
  rw [record_of_postAll hnodup h hv]
  exact mirrors_nextRecord _

/-! ### Whole runs -/

theorem lastRun_postAll {views : List ParsedView} {sum sum' : RunSummary}
    (h : Ledger.postAll reg w sum g views = .ok (sum', g')) :
    g'.data.lastRun = g.data.lastRun := by
  refine Ledger.keeps_postAll (P := fun d => d.lastRun = g.data.lastRun) ?_ rfl h
  intro k k' v p hk hpost
  obtain ⟨_, d, hpins, hdata, _, _⟩ := Ledger.post_eq_ok hpost
  have hlast : d.lastRun = k.data.lastRun := lastRun_applyPins hpins
  rw [hdata]
  exact hlast.trans hk

/-- What a run over some views leaves behind on records: those of its views are as the views ask,
all others are those of `records`. -/
structure Updated (records : ViewTable) (views : List ParsedView) (records' : ViewTable) :
    Prop where
  mirrors : ∀ v ∈ views, Mirrors (records'.find? v.id) v
  others : ∀ id, (∀ v ∈ views, v.id ≠ id) → records'.find? id = records.find? id

section Runs

variable {views : List ParsedView} {watermark : Option Instant} {sum : RunSummary}
variable {d d' : StoreData}

theorem mirrors_run (hnodup : (views.map (·.id)).Nodup)
    (h : Ledger.run reg w views watermark g = .ok (sum, d')) :
    Updated g.data.views views d'.views ∧ d'.lastRun = watermark.or g.data.lastRun := by
  obtain ⟨⟨sum₁, k⟩, hposts, h⟩ := bind_eq_ok.1 h
  cases h
  have hviews : (k.closed watermark).views = k.data.views := by
    cases watermark with
    | none => rfl
    | some t => rfl
  rw [hviews]
  refine ⟨⟨mirrors_postAll hnodup hposts, fun id hid => find?_postAll hposts hid⟩, ?_⟩
  rw [← lastRun_postAll hposts]
  cases watermark with
  | none => rfl
  | some t => rfl

theorem mirrors_update (hnodup : (views.map (·.id)).Nodup)
    (h : d.update reg w views watermark = .ok (sum, d')) :
    Updated d.views views d'.views ∧ d'.lastRun = watermark.or d.lastRun :=
  mirrors_run (g := ⟨d, 0, 0⟩) hnodup h

/-- A run from scratch starts without records. -/
theorem mirrors_rebuild (hnodup : (views.map (·.id)).Nodup)
    (h : d.rebuild reg w views watermark = .ok (sum, d')) :
    Updated .empty views d'.views ∧ d'.lastRun = watermark.or d.lastRun := by
  obtain ⟨k, hwipe, hrun⟩ := bind_eq_ok.1 h
  obtain ⟨k₁, hpin, rfl⟩ := map_eq_ok.1 hwipe
  obtain ⟨hpins, _, _⟩ := Ledger.pin_eq_ok hpin
  have hlast : k₁.data.lastRun = d.lastRun := lastRun_applyPins hpins
  obtain ⟨hupdated, hstored⟩ := mirrors_run hnodup hrun
  refine ⟨hupdated, hstored.trans ?_⟩
  show watermark.or k₁.data.lastRun = _
  rw [hlast]

end Runs

end PinLedger
