import PinLedger.Proofs.Service.Stages

/-!
# PinLedger.Proofs.Service.Execution

What a run carries out when it completes: every statement of the plan of every view, in the order of
the page. Each plan is made from what the plans before it have left behind.

* `Executed` — data before and after plans that are carried out one after another
* `Ledger.plans`, `executed_of_postAll` — the plans of views that are posted
* `Load.resets`, `Load.plans` — the statements of a run
* `Load.Executes`, `executes_of_post` — all of them carried out
-/

namespace PinLedger

/-- From `d` to `d'` the views have been planned one after another. Each plan is made for the record
and the rows that the plans before it have left behind, and it is carried out from its first statement
to its last. -/
inductive Executed (reg : Registry) (w : Window) :
    StoreData → List ParsedView → List Plan → StoreData → Prop
  | nil (d : StoreData) : Executed reg w d [] [] d
  | cons {d d₁ d' : StoreData} {v : ParsedView} {views : List ParsedView} {p : Plan}
      {plans : List Plan} (hplan : plan d.lookup reg w (d.views.find? v.id) v = .ok p)
      (hpins : d.applyPins (p.operations.map PinOperation.statement) = .ok d₁)
      (hrest : Executed reg w
        { d₁ with views := p.statement.toList.foldl ViewTable.apply d₁.views } views plans d') :
      Executed reg w d (v :: views) (p :: plans) d'

/-- The pin statements of plans. -/
def pinStatements (plans : List Plan) : List PinStatement :=
  (plans.flatMap Plan.operations).map PinOperation.statement

/-- The view statements of plans. -/
def viewStatements (plans : List Plan) : List ViewStatement :=
  plans.flatMap fun p => p.statement.toList

variable {reg : Registry} {w : Window} {d d' : StoreData} {views : List ParsedView}
variable {sum sum' : RunSummary} {g g' : Ledger} {l : Load}

/-- The log tells of all pin statements. -/
theorem Executed.pinLog {plans : List Plan} (h : Executed reg w d views plans d') :
    d'.pinLog = d.pinLog ++ pinStatements plans := by
  induction h with
  | nil d => exact (List.append_nil _).symm
  | @cons d d₁ d' v views p plans hplan hpins hrest ih =>
    have hlog := pinLog_applyPins hpins
    rw [ih]
    show d₁.pinLog ++ _ = _
    rw [hlog, List.append_assoc]
    unfold pinStatements
    rw [List.flatMap_cons, List.map_append]

namespace Ledger

/-- The plans of views that are posted one after another. -/
def plans (reg : Registry) (w : Window) (g : Ledger) : List ParsedView → List Plan
  | [] => []
  | v :: views =>
    match g.post reg w v with
    | .ok (p, g') => p :: plans reg w g' views
    | .error _ => []

theorem plans_cons {v : ParsedView} {p : Plan} (h : g.post reg w v = .ok (p, g'))
    (views : List ParsedView) :
    g.plans reg w (v :: views) = p :: g'.plans reg w views := by
  rw [plans, h]

end Ledger

/-- Views that have been posted are executed. -/
theorem executed_of_postAll (h : Ledger.postAll reg w sum g views = .ok (sum', g')) :
    Executed reg w g.data views (g.plans reg w views) g'.data ∧
      g'.pins = g.pins + (pinStatements (g.plans reg w views)).length ∧
      g'.views = g.views + (viewStatements (g.plans reg w views)).length ∧
      sum' = (g.plans reg w views).foldl (fun s p => s.record p.case) sum := by
  induction views generalizing sum g with
  | nil =>
    cases h
    exact ⟨.nil _, rfl, rfl, rfl⟩
  | cons v views ih =>
    obtain ⟨⟨p, k⟩, hpost, h⟩ := bind_eq_ok.1 h
    obtain ⟨hexecuted, hpins, hviews, hsum⟩ := ih h
    obtain ⟨hplan, d₁, happlied, hdata, hkpins, hkviews⟩ := Ledger.post_eq_ok hpost
    rw [hdata] at hexecuted
    rw [← plan_eq_planDirect] at hplan
    rw [Ledger.plans_cons hpost]
    refine ⟨.cons hplan happlied hexecuted, ?_, ?_, hsum⟩
    · rw [hpins, hkpins]
      simp only [pinStatements, List.flatMap_cons, List.length_map, List.length_append]
      omega
    · rw [hviews, hkviews]
      simp only [viewStatements, List.flatMap_cons, List.length_append]
      omega

/-! ### Runs -/

namespace Load

/-- The statements by which a run from scratch begins. -/
def resets (l : Load) : List PinStatement :=
  if l.fresh then l.registry.tables.map .reset else []

/-- The plans that a run makes. -/
def plans (w : Window) (l : Load) (d : StoreData) : List Plan :=
  match l.start d with
  | .ok g => g.plans l.registry w l.views
  | .error _ => []

/-- All statements of a run, carried out in their order: the resets and the end of all records, if it
is from scratch, the plans of its views in the order of the page, and the watermark, if there is one. -/
structure Executes (w : Window) (l : Load) (plans : List Plan) (d d' : StoreData) : Prop where
  run : ∃ d₁ d₂, d.applyPins l.resets = .ok d₁ ∧
    Executed l.registry w { d₁ with views := if l.fresh then .empty else d₁.views } l.views plans
      d₂ ∧
    d' = l.watermark.elim d₂ fun t => { d₂ with lastRun := some t }
  log : d'.pinLog = d.pinLog ++ l.resets ++ pinStatements plans

/-- The ledger to which the views are posted has seen the resets. -/
theorem of_start (h : l.start d = .ok g) :
    ∃ d₁, d.applyPins l.resets = .ok d₁ ∧
      g.data = { d₁ with views := if l.fresh then .empty else d₁.views } ∧
      g.pins = l.resets.length ∧ g.views = 0 := by
  unfold start at h
  unfold resets
  cases hfresh : l.fresh
  · rw [hfresh] at h
    cases h
    exact ⟨d, rfl, rfl, rfl, rfl⟩
  · rw [hfresh] at h
    obtain ⟨k, hpin, rfl⟩ := map_eq_ok.1 h
    obtain ⟨hpins, hcount, hviews⟩ := Ledger.pin_eq_ok hpin
    exact ⟨k.data, hpins, rfl, hcount.trans (Nat.zero_add _), hviews⟩

/-- A run that completes has carried out all its statements, and has counted them. -/
theorem executes_of_post (h : l.post w d = .ok (sum, d')) :
    l.Executes w (l.plans w d) d d' ∧
      sum = { (l.plans w d).foldl (fun (s : RunSummary) p => s.record p.case) {} with
        pinStatements := (l.resets ++ pinStatements (l.plans w d)).length
        viewStatements := (viewStatements (l.plans w d)).length
        watermark := l.watermark } := by
  rw [post_eq] at h
  obtain ⟨g, hstart, hrun⟩ := bind_eq_ok.1 h
  obtain ⟨⟨s, k⟩, hposts, heq⟩ := bind_eq_ok.1 hrun
  cases heq
  obtain ⟨d₁, hresets, hdata, hpins, hviews⟩ := of_start hstart
  obtain ⟨hexecuted, hkpins, hkviews, rfl⟩ := executed_of_postAll hposts
  have hplans : l.plans w d = g.plans l.registry w l.views := by
    rw [plans, hstart]
  rw [hplans]
  have hlog : k.data.pinLog =
      d.pinLog ++ l.resets ++ pinStatements (g.plans l.registry w l.views) := by
    have hstartLog : g.data.pinLog = d₁.pinLog := by rw [hdata]
    rw [hexecuted.pinLog, hstartLog, pinLog_applyPins hresets]
  rw [hdata] at hexecuted
  refine ⟨⟨⟨d₁, k.data, hresets, hexecuted, rfl⟩, ?_⟩, ?_⟩
  · cases hmark : l.watermark with
    | none => exact hlog
    | some t => exact hlog
  · unfold Ledger.summary
    rw [hkpins, hkviews, hpins, hviews, List.length_append, Nat.zero_add]

end Load

end PinLedger
