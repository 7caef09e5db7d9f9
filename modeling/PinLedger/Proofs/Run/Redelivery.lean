import PinLedger.Proofs.Reconcile.Operations
import PinLedger.Proofs.Run.Mirroring
import PinLedger.Proofs.Run.Transaction

/-!
# PinLedger.Proofs.Run.Redelivery

A view whose record is as the view asks needs nothing. Its plan has no operations, so that neither
the registry nor the tables are asked, and its record is written as it is. A run over such views
comes to its end whatever the store has been told to fail, for no pin batch is ever carried out.

* `ParsedView.restCase` — the case of such a view
* `plan_of_mirrors`, `change_of_mirrors` — its plan, carried out
* `Workspace.Rests` — no pin statement waits
* `exec_update_of_mirrors` — a run over such views
-/

namespace PinLedger

/-- The case of a view whose record is as the view asks. -/
def ParsedView.restCase (v : ParsedView) : ReconcileCase :=
  if v.disabled then .ignored else .unchanged

variable {reg : Registry} {w : Window} {v : ParsedView} {previous : Option ViewRecord}

theorem classify_of_mirrors (h : Mirrors previous v) : classify w previous v = v.restCase := by
  unfold classify ParsedView.restCase
  rcases mirrors_cases h with ⟨hd, rfl⟩ | ⟨hd, r, rfl, htime, hlayers, _, _⟩
  · simp only [hd, if_true]
  · simp only [hd, Bool.false_eq_true, if_false, classifyUpdate_of_same htime hlayers]

theorem agenda_of_mirrors (h : Mirrors previous v) : agenda reg w previous v = [] := by
  rcases mirrors_cases h with ⟨hd, rfl⟩ | ⟨hd, r, rfl, htime, hlayers, _, _⟩
  · unfold agenda
    simp only [hd]
  · exact agenda_of_same hd htime hlayers

/-- The record is written as it is. -/
theorem nextStatement_of_mirrors (h : Mirrors previous v) :
    nextStatement w previous v = previous.map .update := by
  unfold nextStatement
  rcases mirrors_cases h with ⟨hd, rfl⟩ | ⟨hd, r, rfl, htime, hlayers, hdriving, hupdate⟩
  · simp only [hd]
    rfl
  · have hrecord : updatedRecord r v .unchanged = r := by
      unfold updatedRecord
      rw [← htime, ← hlayers, ← hdriving, ← hupdate]
      rfl
    simp only [hd, classifyUpdate_of_same htime hlayers, hrecord, Option.map_some]

/-- The plan of such a view does not ask for anything. -/
theorem plan_of_mirrors (lookup : RowLookup) (reg : Registry) (w : Window)
    (h : Mirrors previous v) :
    ∃ id, plan lookup reg w previous v = .ok ⟨id, v.restCase, [], previous.map .update⟩ := by
  refine ⟨previous.elim v.id (·.id), ?_⟩
  rw [plan_eq_planDirect]
  unfold planDirect planWith
  rw [agenda_of_mirrors h, classify_of_mirrors h, nextStatement_of_mirrors h]
  rfl

theorem apply_update_of_find? {t : ViewTable} {id : Int} {r : ViewRecord}
    (h : t.find? id = some r) : t.apply (.update r) = t := by
  have hid : t.find? r.id = some r := by
    rw [ViewTable.id_of_find? h]
    exact h
  have hput : t.put r = t := by
    refine ViewTable.eq_of_find? ?_
    intro id'
    rw [ViewTable.find?_put]
    by_cases hsame : r.id = id'
    · rw [if_pos hsame, ← hsame, hid]
    · rw [if_neg hsame]
  show (if t.contains r.id then t.put r else t) = t
  rw [hput, ite_self]

/-- Carrying it out counts a view statement for a record that is there, and does nothing else. -/
theorem change_of_mirrors (g : Ledger) (id : Int) :
    g.change ((g.data.views.find? id).map .update).toList =
      { g with views := g.views + ((g.data.views.find? id).elim 0 fun _ => 1) } := by
  cases h : g.data.views.find? id with
  | none => rfl
  | some r =>
    have hsame : [ViewStatement.update r].foldl ViewTable.apply g.data.views = g.data.views :=
      apply_update_of_find? h
    simp only [Option.map_some, Option.toList_some, Ledger.change, hsame]
    rfl

/-! ### Workspaces in which no pin statement waits -/

/-- No pin statement waits, and the workspace stands for the ledger `g`. -/
structure Workspace.Rests (s : Workspace) (g : Ledger) : Prop extends s.Open where
  idle : s.pins.pending = []
  stands : s.settled = .ok g

variable {s : Workspace} {g : Ledger}

theorem exec_enqueueView_ok (hs : s.Rests g) (v : ViewStatement) :
    ∃ s', (Work.enqueueView v).exec s = (.ok v.sql, s') ∧ s'.Rests (g.change [v]) := by
  have hpushed : (s.pushedView v).Rests (g.change [v]) := by
    refine ⟨⟨hs.pins, hs.views⟩, hs.idle, ?_⟩
    rw [Workspace.settled_pushedView, hs.stands]
    rfl
  rw [Work.exec_enqueueView hs.toOpen]
  split
  · obtain ⟨n, hflush⟩ := Work.exec_flushViews (s.pushedView v)
    refine ⟨(s.pushedView v).flushedViews, ?_, ⟨hs.pins, hs.views⟩, hs.idle, ?_⟩
    · rw [Work.exec_bind_of_ok hflush]
      rfl
    · rw [Workspace.settled_flushedViews]
      exact hpushed.stands
  · exact ⟨s.pushedView v, rfl, hpushed⟩

/-- A plan without operations only changes the records. -/
theorem exec_applyPlan_ok {p : Plan} (hs : s.Rests g) (hops : p.operations = []) :
    ∃ texts s', (Work.applyPlan p).exec s = (.ok texts, s') ∧
      s'.Rests (g.change p.statement.toList) := by
  unfold Work.applyPlan
  rw [hops]
  cases hp : p.statement with
  | none => exact ⟨[], s, rfl, hs⟩
  | some v =>
    obtain ⟨s', hv, hs'⟩ := exec_enqueueView_ok hs v
    refine ⟨[v.sql], s', ?_, hs'⟩
    have hviews : (([v] : List ViewStatement).mapM Work.enqueueView).exec s =
        (.ok [v.sql], s') := by
      rw [List.mapM_cons, Work.exec_bind_of_ok hv]
      rfl
    show ((([v] : List ViewStatement).mapM Work.enqueueView) >>= _).exec s = _
    rw [Work.exec_bind_of_ok hviews]
    rfl

theorem exec_reconcileNext_ok {id : Int} {case : ReconcileCase} {st : Option ViewStatement}
    (hs : s.Rests g) (hplan : g.plan reg w v = .ok ⟨id, case, [], st⟩) (sum : RunSummary) :
    ∃ s', (Work.reconcileNext reg w sum v).exec s = (.ok (sum.record case), s') ∧
      s'.Rests (g.change st.toList) := by
  have hview : (Work.planView reg w v).exec s = (.ok ⟨id, case, [], st⟩, s.flushedViews) := by
    rw [exec_planView, ← plan_of_settled reg w v hs.stands, hplan]
  have hflushed : s.flushedViews.Rests g := by
    refine ⟨⟨hs.pins, hs.views⟩, hs.idle, ?_⟩
    rw [Workspace.settled_flushedViews]
    exact hs.stands
  obtain ⟨texts, s', happly, hs'⟩ := exec_applyPlan_ok (p := ⟨id, case, [], st⟩) hflushed rfl
  refine ⟨s', ?_, hs'⟩
  unfold Work.reconcileNext Work.reconcile
  rw [bind_assoc, Work.exec_bind_of_ok hview, bind_assoc, Work.exec_bind_of_ok happly]
  rfl

/-! ### Views whose records are as they ask -/

/-- How a summary counts such views. -/
theorem foldl_restCase (views : List ParsedView) (sum : RunSummary) :
    views.foldl (fun sum v => sum.record v.restCase) sum =
      { sum with
        viewsSeen := sum.viewsSeen + views.length
        unchanged := sum.unchanged + views.countP (!·.disabled)
        ignored := sum.ignored + views.countP (·.disabled) } := by
  induction views generalizing sum with
  | nil => rfl
  | cons v views ih =>
    rw [List.foldl_cons, ih]
    unfold ParsedView.restCase
    cases hd : v.disabled
    · simp [RunSummary.record, hd, Nat.add_assoc, Nat.add_comm 1]
    · simp [RunSummary.record, hd, Nat.add_assoc, Nat.add_comm 1]

theorem exec_reconcileAll_of_mirrors {views : List ParsedView} (reg : Registry) (w : Window)
    (hs : s.Rests g)
    (h : ∀ v ∈ views, Mirrors (g.data.views.find? v.id) v) (sum : RunSummary) :
    ∃ s', (views.foldlM (Work.reconcileNext reg w) sum).exec s =
        (.ok (views.foldl (fun sum v => sum.record v.restCase) sum), s') ∧
      s'.Rests { g with views := g.views + views.countP (!·.disabled) } := by
  induction views generalizing s g sum with
  | nil => exact ⟨s, rfl, hs⟩
  | cons v views ih =>
    have hv := h v List.mem_cons_self
    obtain ⟨id, hplan⟩ := plan_of_mirrors g.data.lookup reg w hv
    obtain ⟨s₁, h₁, hs₁⟩ := exec_reconcileNext_ok hs (congrArg (Except.mapError _) hplan) sum
    rw [change_of_mirrors] at hs₁
    obtain ⟨s', h₂, hs'⟩ := ih hs₁ (fun v' hv' => h v' (List.mem_cons_of_mem v hv'))
      (sum.record v.restCase)
    refine ⟨s', ?_, ?_⟩
    · rw [List.foldlM_cons, Work.exec_bind_of_ok h₁]
      exact h₂
    · -- the records of enabled views are there, those of disabled ones are not
      have hcount : (g.data.views.find? v.id).elim 0 (fun _ => 1) + views.countP (!·.disabled) =
          (v :: views).countP (!·.disabled) := by
        rcases mirrors_cases hv with ⟨hd, hnone⟩ | ⟨hd, r, hr, _⟩
        · simp [hnone, hd]
        · simp [hr, hd, Nat.add_comm]
      rw [← hcount]
      simp only [Nat.add_assoc] at hs'
      exact hs'

/-- What a run over such views counts. -/
def RunSummary.ofRest (views : List ParsedView) (watermark : Option Instant) : RunSummary where
  viewsSeen := views.length
  unchanged := views.countP (!·.disabled)
  ignored := views.countP (·.disabled)
  viewStatements := views.countP (!·.disabled)
  watermark

/-- A run over such views comes to its end and leaves nothing but its watermark. -/
theorem exec_update_of_mirrors {views : List ParsedView} {d : StoreData} (reg : Registry)
    (w : Window) (h : ∀ v ∈ views, Mirrors (d.views.find? v.id) v) (watermark : Option Instant)
    (f : Faults) (pinBatch viewBatch : Nat) :
    ∃ s', (Work.update reg w views watermark).exec (.start d f pinBatch viewBatch) =
        (.ok (.ofRest views watermark), s') ∧
      s'.data = watermark.elim d fun t => { d with lastRun := some t } := by
  have hstart : (Workspace.start d f pinBatch viewBatch).Rests ⟨d, 0, 0⟩ :=
    ⟨Workspace.open_start d f pinBatch viewBatch, rfl, rfl⟩
  obtain ⟨s₁, h₁, hs₁⟩ := exec_reconcileAll_of_mirrors reg w hstart h {}
  -- no pin batch is left for the end, so no told failure can strike there
  obtain ⟨n, hflush⟩ := Work.exec_flushPins_idle hs₁.idle
  have happly : s₁.data.applyPins s₁.pins.pending = .ok s₁.data := by
    rw [hs₁.idle]
    rfl
  obtain ⟨g, s', hg, hfinish, hdata, _⟩ := exec_finish_of_flush watermark
    (views.foldl (fun sum v => sum.record v.restCase) {}) happly hflush
  rw [hs₁.stands] at hg
  cases hg
  refine ⟨s', ?_, hdata⟩
  unfold Work.update Work.reconcileAll
  rw [Work.exec_bind_of_ok h₁, hfinish, foldl_restCase]
  simp only [Ledger.summary, RunSummary.ofRest, Nat.zero_add]

end PinLedger
