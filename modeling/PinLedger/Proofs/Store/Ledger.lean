import PinLedger.Proofs.Store.Pins
import PinLedger.Run.Work

/-!
# PinLedger.Proofs.Store.Ledger

What a run comes to when nothing waits: each plan is carried out as soon as it is made, the pin
statements before the change of the record. There are no queues, batches or flushes in it.

* `Ledger` — data, and how many statements have changed it
* `Ledger.post`, `Ledger.postAll` — a view, or views one after another, planned and carried out
* `StoreData.update`, `StoreData.rebuild` — a whole run on the data of the store
-/

namespace PinLedger

/-- Data, and the numbers of pin and view statements that made it what it is. -/
structure Ledger where
  data : StoreData
  pins : Nat := 0
  views : Nat := 0

/-- The texts of the statements of a plan. -/
def Plan.texts (p : Plan) : List String :=
  p.operations.map (·.statement.sql) ++ p.statement.toList.map (·.sql)

namespace Ledger

/-- Carries out pin statements. -/
def pin (g : Ledger) (l : List PinStatement) : Except Abort Ledger :=
  (g.data.applyPins l).map fun data => { g with data, pins := g.pins + l.length }

/-- Carries out view statements. -/
def change (g : Ledger) (l : List ViewStatement) : Ledger where
  data := { g.data with views := l.foldl ViewTable.apply g.data.views }
  pins := g.pins
  views := g.views + l.length

/-- The plan of a view for the data as it is. -/
def plan (reg : Registry) (w : Window) (g : Ledger) (v : ParsedView) : Except Abort Plan :=
  (PinLedger.plan g.data.lookup reg w (g.data.views.find? v.id) v).mapError PlanError.toAbort

/-- Plans a view and carries out its plan. -/
def post (reg : Registry) (w : Window) (g : Ledger) (v : ParsedView) :
    Except Abort (Plan × Ledger) := do
  let p ← g.plan reg w v
  let g' ← g.pin (p.operations.map PinOperation.statement)
  pure (p, g'.change p.statement.toList)

/-- Plans views one after another, carries out each plan and counts it. -/
def postAll (reg : Registry) (w : Window) (s : RunSummary) (g : Ledger) :
    List ParsedView → Except Abort (RunSummary × Ledger)
  | [] => .ok (s, g)
  | v :: vs => do
    let (p, g') ← g.post reg w v
    postAll reg w (s.record p.case) g' vs

/-- Takes the pins of the tables of the registry to zero and drops all records. -/
def wipe (reg : Registry) (g : Ledger) : Except Abort Ledger :=
  (g.pin (reg.tables.map .reset)).map fun g' =>
    { g' with data := { g'.data with views := .empty } }

/-- The summary of a run that has posted its views. -/
def summary (g : Ledger) (watermark : Option Instant) (s : RunSummary) : RunSummary :=
  { s with pinStatements := g.pins, viewStatements := g.views, watermark }

/-- The data with the watermark of a run. -/
def closed (g : Ledger) (watermark : Option Instant) : StoreData :=
  watermark.elim g.data fun t => { g.data with lastRun := some t }

/-- Posts the views and stores the watermark. -/
def run (reg : Registry) (w : Window) (views : List ParsedView) (watermark : Option Instant)
    (g : Ledger) : Except Abort (RunSummary × StoreData) := do
  let (s, g') ← postAll reg w {} g views
  pure (g'.summary watermark s, g'.closed watermark)

end Ledger

namespace StoreData

/-- A run over the views that changed. -/
def update (reg : Registry) (w : Window) (views : List ParsedView) (watermark : Option Instant)
    (d : StoreData) : Except Abort (RunSummary × StoreData) :=
  Ledger.run reg w views watermark ⟨d, 0, 0⟩

/-- A run over all views, from scratch. -/
def rebuild (reg : Registry) (w : Window) (views : List ParsedView) (watermark : Option Instant)
    (d : StoreData) : Except Abort (RunSummary × StoreData) := do
  let g ← Ledger.wipe reg ⟨d, 0, 0⟩
  g.run reg w views watermark

end StoreData

variable {reg : Registry} {w : Window} {g g' : Ledger} {v : ParsedView} {p : Plan}

theorem Ledger.pin_eq_ok {l : List PinStatement} (h : g.pin l = .ok g') :
    g.data.applyPins l = .ok g'.data ∧ g'.pins = g.pins + l.length ∧ g'.views = g.views := by
  obtain ⟨d, hd, rfl⟩ := map_eq_ok.1 h
  exact ⟨hd, rfl, rfl⟩

/-- What a view that was posted did: it was planned, the operations were carried out, and then the
change of its record. -/
theorem Ledger.post_eq_ok (h : g.post reg w v = .ok (p, g')) :
    planDirect g.data.lookup reg w (g.data.views.find? v.id) v = .ok p ∧
      ∃ d, g.data.applyPins (p.operations.map PinOperation.statement) = .ok d ∧
        g'.data = { d with views := p.statement.toList.foldl ViewTable.apply d.views } ∧
        g'.pins = g.pins + p.operations.length ∧
        g'.views = g.views + p.statement.toList.length := by
  obtain ⟨p', hplan, h⟩ := bind_eq_ok.1 h
  obtain ⟨g₁, hpin, h⟩ := bind_eq_ok.1 h
  cases h
  obtain ⟨hd, hpins, hviews⟩ := Ledger.pin_eq_ok hpin
  refine ⟨?_, g₁.data, hd, rfl, ?_, ?_⟩
  · rw [← plan_eq_planDirect]
    exact mapError_eq_ok.1 hplan
  · rw [List.length_map] at hpins
    exact hpins
  · show g₁.views + _ = _
    rw [hviews]

/-! ### Row times -/

theorem Ledger.skeleton_post (h : g.post reg w v = .ok (p, g')) :
    g'.data.skeleton = g.data.skeleton := by
  obtain ⟨_, d, hpins, hdata, _, _⟩ := Ledger.post_eq_ok h
  have hskeleton : d.skeleton = g.data.skeleton := skeleton_applyPins hpins
  rw [hdata]
  exact hskeleton

/-- What every view that is posted keeps, views that are posted one after another keep. -/
theorem Ledger.keeps_postAll {P : StoreData → Prop} {views : List ParsedView}
    {sum sum' : RunSummary}
    (hP : ∀ {g g' : Ledger} {v p}, P g.data → g.post reg w v = .ok (p, g') → P g'.data)
    (hg : P g.data) (h : Ledger.postAll reg w sum g views = .ok (sum', g')) : P g'.data := by
  induction views generalizing sum g with
  | nil =>
    cases h
    exact hg
  | cons v views ih =>
    obtain ⟨⟨p, k⟩, hpost, h⟩ := bind_eq_ok.1 h
    exact ih (hP hg hpost) h

/-- So does a run, if it does not depend on the watermark. -/
theorem Ledger.keeps_run {P : StoreData → Prop} {views : List ParsedView}
    {watermark : Option Instant} {sum : RunSummary} {d' : StoreData}
    (hP : ∀ {g g' : Ledger} {v p}, P g.data → g.post reg w v = .ok (p, g') → P g'.data)
    (hmark : ∀ {d : StoreData} (t : Instant), P d → P { d with lastRun := some t })
    (hg : P g.data) (h : Ledger.run reg w views watermark g = .ok (sum, d')) : P d' := by
  obtain ⟨⟨sum₁, k⟩, hpost, h⟩ := bind_eq_ok.1 h
  cases h
  have hk : P k.data := Ledger.keeps_postAll hP hg hpost
  cases watermark with
  | none => exact hk
  | some t => exact hmark t hk

theorem Ledger.skeleton_run {views : List ParsedView} {watermark : Option Instant}
    {sum : RunSummary} {d' : StoreData}
    (h : Ledger.run reg w views watermark g = .ok (sum, d')) : d'.skeleton = g.data.skeleton :=
  Ledger.keeps_run (P := fun d => d.skeleton = g.data.skeleton)
    (fun hg hpost => (Ledger.skeleton_post hpost).trans hg) (fun _ hd => hd) rfl h

theorem Ledger.skeleton_wipe (h : g.wipe reg = .ok g') : g'.data.skeleton = g.data.skeleton := by
  obtain ⟨k, hpin, rfl⟩ := map_eq_ok.1 h
  obtain ⟨hpins, _, _⟩ := Ledger.pin_eq_ok hpin
  have hskeleton : k.data.skeleton = g.data.skeleton := skeleton_applyPins hpins
  exact hskeleton

theorem StoreData.skeleton_rebuild {views : List ParsedView} {watermark : Option Instant}
    {sum : RunSummary} {d d' : StoreData}
    (h : d.rebuild reg w views watermark = .ok (sum, d')) : d'.skeleton = d.skeleton := by
  obtain ⟨k, hwipe, hrun⟩ := bind_eq_ok.1 h
  exact (Ledger.skeleton_run hrun).trans (Ledger.skeleton_wipe hwipe)

end PinLedger
