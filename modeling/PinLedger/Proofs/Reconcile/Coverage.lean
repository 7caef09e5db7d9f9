import PinLedger.Proofs.Failing
import PinLedger.Proofs.Reconcile.Agenda
import PinLedger.Proofs.Reconcile.EdgeDelta
import PinLedger.Proofs.Reconcile.Snapping

/-!
# PinLedger.Proofs.Reconcile.Coverage

How often a record covers a time of a table, and how a plan moves that number from the former record
to the new one. Every step of a plan balances: what it takes down and what it covers afterwards make
up what it puts up and what it covered before.

* `coverage` — the pairs of a layer id and a binding whose snapped hull holds a time
* `PlanStep.balanced` — the balance of one step
* `planDirect_balanced` — the balance of a plan
* `planDirect_balanced_of_new` — the balance of the plan of a view without a record
-/

namespace PinLedger

/-! ### Coverage -/

/-- The hull of two times, its bounds snapped to what the lookup answers. -/
def RowLookup.hull (lookup : RowLookup) (w : Window) (c : Column) (a b : Instant) :
    Except PlanError TimeRange :=
  snappedHull (snapDirect lookup.ask) w c a b

/-- The snapped hull of two times holds `x`. -/
def RowLookup.covers (lookup : RowLookup) (w : Window) (c : Column) (a b x : Instant) : Bool :=
  match lookup.hull w c a b with
  | .ok range => decide (x ∈ range)
  | .error _ => false

/-- A binding to this table whose snapped hull of two times holds `x`. -/
def RowLookup.pinsBy (lookup : RowLookup) (w : Window) (table : String) (x a b : Instant)
    (l : MappedLayer) : Bool :=
  l.column.table == table && lookup.covers w l.column a b x

/-- How many pairs of a layer id and one of its bindings to a table cover `x` by the hull of two
times. -/
def coverage (reg : Registry) (lookup : RowLookup) (w : Window) (table : String) (x : Instant)
    (layers : NameSet) (a b : Instant) : Nat :=
  (layers.toList.map fun layer =>
    (reg.layersFor layer).countP (lookup.pinsBy w table x a b)).sum

/-- How often a record covers `x` in a table. -/
def ViewRecord.coverage (r : ViewRecord) (reg : Registry) (lookup : RowLookup) (w : Window)
    (table : String) (x : Instant) : Nat :=
  PinLedger.coverage reg lookup w table x r.layers r.timeOriginal r.timeMain

/-- An operation of this direction on a table, over a range that holds `x`. -/
def PinOperation.hits (table : String) (x : Instant) (add : Bool) (op : PinOperation) : Bool :=
  op.layer.column.table == table && RangeShift.hits x add ⟨op.range, op.add⟩

/-- How many operations of this direction on a table hit `x`. -/
def hitCount (table : String) (x : Instant) (add : Bool) (ops : List PinOperation) : Nat :=
  ops.countP (PinOperation.hits table x add)

theorem hitCount_append (table : String) (x : Instant) (add : Bool) (ops ops' : List PinOperation) :
    hitCount table x add (ops ++ ops') = hitCount table x add ops + hitCount table x add ops' :=
  List.countP_append

/-- What goes down is put before what goes up; no count depends on that. -/
theorem countP_sorted (q : PinOperation → Bool) (ops : List PinOperation) :
    (ops.filter (!·.add) ++ ops.filter (·.add)).countP q = ops.countP q := by
  rw [List.countP_append, Nat.add_comm]
  induction ops with
  | nil => rfl
  | cons op ops ih =>
    cases h : op.add
    · simp only [List.filter_cons, h, Bool.not_false, if_true, Bool.false_eq_true, if_false,
        List.countP_cons]
      omega
    · simp only [List.filter_cons, h, Bool.not_true, if_true, Bool.false_eq_true, if_false,
        List.countP_cons]
      omega

theorem hitCount_sorted (table : String) (x : Instant) (add : Bool) (ops : List PinOperation) :
    hitCount table x add (ops.filter (!·.add) ++ ops.filter (·.add)) =
      hitCount table x add ops :=
  countP_sorted _ ops

/-! ### The balance of a step -/

section Balance

variable {reg : Registry} {lookup : RowLookup} {w : Window} {table : String} {x : Instant}
variable {P : Instant → Prop}

/-- The snapped hull of two times in a column has its bounds on a grid. -/
def BoundsOn (P : Instant → Prop) (lookup : RowLookup) (w : Window) (c : Column)
    (a b : Instant) : Prop :=
  ∀ range, lookup.hull w c a b = .ok range → P range.start ∧ P range.stop

/-- The snapped hulls of a record in a table have their bounds on a grid. -/
def ViewRecord.BoundsOn (P : Instant → Prop) (reg : Registry) (lookup : RowLookup) (w : Window)
    (table : String) (r : ViewRecord) : Prop :=
  ∀ layer ∈ r.layers, ∀ l ∈ reg.layersFor layer, l.column.table = table →
    PinLedger.BoundsOn P lookup w l.column r.timeOriginal r.timeMain

namespace PlanStep

/-- What a step covers before it is done. -/
def before (lookup : RowLookup) (w : Window) (table : String) (x : Instant) : PlanStep → Nat
  | .cover l a b false => if lookup.pinsBy w table x a b l then 1 else 0
  | .move l a b _ => if lookup.pinsBy w table x a b l then 1 else 0
  | _ => 0

/-- What a step covers when it has been done. -/
def after (lookup : RowLookup) (w : Window) (table : String) (x : Instant) : PlanStep → Nat
  | .cover l a b true => if lookup.pinsBy w table x a b l then 1 else 0
  | .move l a _ b' => if lookup.pinsBy w table x a b' l then 1 else 0
  | _ => 0

/-- The hulls between which a step moves in a table have their bounds on a grid. -/
def Bounded (P : Instant → Prop) (lookup : RowLookup) (w : Window) (table : String) :
    PlanStep → Prop
  | .move l a b b' => l.column.table = table →
      BoundsOn P lookup w l.column a b ∧ BoundsOn P lookup w l.column a b'
  | _ => True

end PlanStep

/-- Operations that take down no more than was covered, and after which the balance is right. -/
def Balanced (table : String) (x : Instant) (ops : List PinOperation) (before after : Nat) :
    Prop :=
  hitCount table x false ops ≤ before ∧
    hitCount table x false ops + after = hitCount table x true ops + before

theorem Balanced.append {ops ops' : List PinOperation} {m n m' n' : Nat}
    (h : Balanced table x ops m n) (h' : Balanced table x ops' m' n') :
    Balanced table x (ops ++ ops') (m + m') (n + n') := by
  obtain ⟨hle, heq⟩ := h
  obtain ⟨hle', heq'⟩ := h'
  unfold Balanced
  rw [hitCount_append, hitCount_append]
  omega

theorem hitCount_singleton (op : PinOperation) (add : Bool) :
    hitCount table x add [op] =
      if op.add = add ∧ op.layer.column.table = table ∧ x ∈ op.range then 1 else 0 := by
  unfold hitCount
  rw [List.countP_singleton]
  congr 1
  simp only [PinOperation.hits, RangeShift.hits, Bool.and_eq_true, beq_iff_eq, decide_eq_true_eq,
    eq_iff_iff]
  exact and_left_comm

theorem hitCount_map_shift (l : MappedLayer) (ds : List RangeShift) (add : Bool) :
    hitCount table x add (ds.map fun s => ⟨l, s.range, s.add⟩) =
      if l.column.table = table then ds.countP (RangeShift.hits x add) else 0 := by
  unfold hitCount
  rw [List.countP_map]
  by_cases h : l.column.table = table
  · rw [if_pos h]
    congr 1
    funext s
    simp [PinOperation.hits, h]
  · rw [if_neg h, List.countP_eq_zero]
    intro s _
    simp [PinOperation.hits, h]

theorem pinsBy_of_hull {l : MappedLayer} {a b : Instant} {range : TimeRange}
    (h : lookup.hull w l.column a b = .ok range) :
    lookup.pinsBy w table x a b l = decide (l.column.table = table ∧ x ∈ range) := by
  unfold RowLookup.pinsBy RowLookup.covers
  rw [h, Bool.eq_iff_iff]
  simp

theorem hull_of_operations_cover {l : MappedLayer} {a b : Instant} {add : Bool}
    {ops : List PinOperation}
    (h : (PlanStep.cover l a b add).operations (snapDirect lookup.ask) w = .ok ops) :
    ∃ range, lookup.hull w l.column a b = .ok range ∧ ops = [⟨l, range, add⟩] := by
  simp only [PlanStep.operations] at h
  obtain ⟨range, hhull, h⟩ := bind_eq_ok.1 h
  cases h
  exact ⟨range, hhull, rfl⟩

theorem hulls_of_operations_move {l : MappedLayer} {a b b' : Instant} {ops : List PinOperation}
    (h : (PlanStep.move l a b b').operations (snapDirect lookup.ask) w = .ok ops) :
    ∃ old new ds, lookup.hull w l.column a b = .ok old ∧ lookup.hull w l.column a b' = .ok new ∧
      edgeDelta? old new = some ds ∧ ops = ds.map fun s => ⟨l, s.range, s.add⟩ := by
  simp only [PlanStep.operations] at h
  obtain ⟨old, hold, h⟩ := bind_eq_ok.1 h
  obtain ⟨new, hnew, h⟩ := bind_eq_ok.1 h
  obtain ⟨ds, hdelta, h⟩ := bind_eq_ok.1 h
  cases h
  cases hd : edgeDelta? old new with
  | none =>
    rw [hd] at hdelta
    cases hdelta
  | some ds' =>
    rw [hd] at hdelta
    cases hdelta
    exact ⟨old, new, ds, hold, hnew, hd, rfl⟩

/-- What a step does to `x` is right. -/
def PlanStep.Balances (lookup : RowLookup) (w : Window) (table : String) (x : Instant)
    (s : PlanStep) : Prop :=
  ∀ ops, s.operations (snapDirect lookup.ask) w = .ok ops →
    Balanced table x ops (s.before lookup w table x) (s.after lookup w table x)

/-- A hull that goes up or down as a whole balances, wherever its bounds lie. -/
theorem PlanStep.balances_cover (l : MappedLayer) (a b : Instant) (add : Bool) :
    (PlanStep.cover l a b add).Balances lookup w table x := by
  intro ops h
  obtain ⟨range, hhull, rfl⟩ := hull_of_operations_cover h
  unfold Balanced
  rw [hitCount_singleton, hitCount_singleton]
  cases add
  · simp [PlanStep.before, PlanStep.after, pinsBy_of_hull hhull]
  · simp [PlanStep.before, PlanStep.after, pinsBy_of_hull hhull]

/-- On a grid every step balances. -/
theorem PlanStep.balanced (hP : Grid P) (hx : P x) {s : PlanStep}
    (hs : s.Bounded P lookup w table) : s.Balances lookup w table x := by
  intro ops h
  cases s with
  | cover l a b add => exact balances_cover l a b add ops h
  | move l a b b' =>
    obtain ⟨old, new, ds, hold, hnew, hdelta, rfl⟩ := hulls_of_operations_move h
    unfold Balanced
    rw [hitCount_map_shift, hitCount_map_shift]
    simp only [PlanStep.before, PlanStep.after, pinsBy_of_hull hold, pinsBy_of_hull hnew,
      decide_eq_true_eq]
    by_cases hl : l.column.table = table
    · obtain ⟨hos, hoe⟩ := (hs hl).1 old hold
      obtain ⟨hns, hne⟩ := (hs hl).2 new hnew
      obtain ⟨hup, hdown⟩ := count_edgeDelta? hP hos hoe hns hne hx hdelta
      rw [if_pos hl, if_pos hl, hup, hdown]
      by_cases ho : x ∈ old
      · by_cases hn : x ∈ new
        · simp [hl, ho, hn]
        · simp [hl, ho, hn]
      · by_cases hn : x ∈ new
        · simp [hl, ho, hn]
        · simp [hl, ho, hn]
    · simp [hl]
  | unmapped view layer => cases h

/-- So does a list of steps that balance. -/
theorem balanced_mapM {ss : List PlanStep} {opss : List (List PinOperation)}
    (hs : ∀ s ∈ ss, s.Balances lookup w table x)
    (h : ss.mapM (PlanStep.operations (snapDirect lookup.ask) w) = .ok opss) :
    Balanced table x opss.flatten (ss.map (PlanStep.before lookup w table x)).sum
      (ss.map (PlanStep.after lookup w table x)).sum := by
  induction ss generalizing opss with
  | nil =>
    cases h
    exact ⟨Nat.le_refl 0, rfl⟩
  | cons s ss ih =>
    rw [List.mapM_cons] at h
    obtain ⟨ops, hops, h⟩ := bind_eq_ok.1 h
    obtain ⟨opss', hopss, h⟩ := bind_eq_ok.1 h
    cases h
    have hhead := hs s List.mem_cons_self ops hops
    have htail := ih (fun s' hs' => hs s' (List.mem_cons_of_mem s hs')) hopss
    simp only [List.flatten_cons, List.map_cons, List.sum_cons]
    exact hhead.append htail

/-! ### The balance of a plan -/

theorem sum_map_ite (p : MappedLayer → Bool) (ls : List MappedLayer) :
    (ls.map fun l => if p l then 1 else 0).sum = ls.countP p := by
  induction ls with
  | nil => rfl
  | cons l ls ih =>
    rw [List.map_cons, List.sum_cons, List.countP_cons, ih, Nat.add_comm]

/-- A number that each binding contributes to, summed over the steps for some layer ids. A layer id
without bindings contributes nothing. -/
theorem sum_stepsFor (f : PlanStep → Nat) (hf : ∀ view layer, f (.unmapped view layer) = 0)
    (view : Int) (step : MappedLayer → PlanStep) (layers : List String) :
    ((layers.flatMap (stepsFor reg view step)).map f).sum =
      (layers.map fun layer => ((reg.layersFor layer).map fun l => f (step l)).sum).sum := by
  induction layers with
  | nil => rfl
  | cons layer layers ih =>
    rw [List.flatMap_cons, List.map_append, List.sum_append, ih, List.map_cons, List.sum_cons]
    congr 1
    unfold stepsFor
    cases reg.layersFor layer with
    | nil => simp [hf]
    | cons l ls => simp [Function.comp_def]

theorem sum_zero_bindings (layers : List String) :
    (layers.map fun layer => ((reg.layersFor layer).map fun _ => 0).sum).sum = 0 := by
  induction layers with
  | nil => rfl
  | cons layer layers ih =>
    rw [List.map_cons, List.sum_cons, ih, List.map_const', List.sum_replicate_nat, Nat.mul_zero]

theorem before_coverSteps (r : ViewRecord) (layers : NameSet) (add : Bool) :
    ((coverSteps reg r layers add).map (PlanStep.before lookup w table x)).sum =
      if add then 0 else coverage reg lookup w table x layers r.timeOriginal r.timeMain := by
  unfold coverSteps
  rw [sum_stepsFor _ (fun _ _ => rfl)]
  cases add
  · simp only [PlanStep.before, sum_map_ite]
    rfl
  · exact sum_zero_bindings _

theorem after_coverSteps (r : ViewRecord) (layers : NameSet) (add : Bool) :
    ((coverSteps reg r layers add).map (PlanStep.after lookup w table x)).sum =
      if add then coverage reg lookup w table x layers r.timeOriginal r.timeMain else 0 := by
  unfold coverSteps
  rw [sum_stepsFor _ (fun _ _ => rfl)]
  cases add
  · exact sum_zero_bindings _
  · simp only [PlanStep.after, sum_map_ite]
    rfl

theorem before_moveSteps (r next : ViewRecord) (layers : NameSet) :
    ((moveSteps reg r next layers).map (PlanStep.before lookup w table x)).sum =
      coverage reg lookup w table x layers r.timeOriginal r.timeMain := by
  unfold moveSteps
  rw [sum_stepsFor _ (fun _ _ => rfl)]
  simp only [PlanStep.before, sum_map_ite]
  rfl

theorem after_moveSteps (r next : ViewRecord) (layers : NameSet) :
    ((moveSteps reg r next layers).map (PlanStep.after lookup w table x)).sum =
      coverage reg lookup w table x layers r.timeOriginal next.timeMain := by
  unfold moveSteps
  rw [sum_stepsFor _ (fun _ _ => rfl)]
  simp only [PlanStep.after, sum_map_ite]
  rfl

variable (reg lookup w table x) in
/-- The layer ids of a set are those that another one lacks and those that it shares. -/
theorem coverage_diff_add_inter (s t : NameSet) (a b : Instant) :
    coverage reg lookup w table x (s.diff t) a b + coverage reg lookup w table x (s.inter t) a b =
      coverage reg lookup w table x s a b :=
  NameSet.sum_diff_add_sum_inter _ s t

/-- The steps for a view have the bounds of their hulls on a grid, if the hulls of its records have.
-/
theorem bounded_agenda {previous : Option ViewRecord} {v : ParsedView} {s : PlanStep}
    (hprev : ∀ r ∈ previous, r.BoundsOn P reg lookup w table)
    (hnext : ∀ r ∈ nextRecord w previous v, r.BoundsOn P reg lookup w table)
    (h : s ∈ agenda reg w previous v) : s.Bounded P lookup w table := by
  cases due_agenda h with
  | unmapped view layer => trivial
  | down _ _ _ _ => trivial
  | up _ _ _ _ => trivial
  | move hr hlayer hkept hcase hb =>
    intro htable
    subst hr
    exact ⟨hprev _ rfl _ hlayer _ hb htable,
      hnext _ (nextRecord_of_extend hcase) _ hkept _ hb htable⟩

/-- How often a record, if there is one, covers `x`. -/
def coverageOf (reg : Registry) (lookup : RowLookup) (w : Window) (table : String) (x : Instant)
    (r : Option ViewRecord) : Nat :=
  r.elim 0 (·.coverage reg lookup w table x)

/-- What the layers of an update cover before and after it, apart from those that stay as they are.
-/
theorem sum_updateSteps (r next : ViewRecord) (case : ReconcileCase)
    (ho : case ≠ .redo → next.timeOriginal = r.timeOriginal)
    (hm : case ≠ .redo → case ≠ .extend → next.timeMain = r.timeMain) :
    ∃ stay,
      ((updateSteps reg r next case).map (PlanStep.before lookup w table x)).sum + stay =
        r.coverage reg lookup w table x ∧
      ((updateSteps reg r next case).map (PlanStep.after lookup w table x)).sum + stay =
        next.coverage reg lookup w table x := by
  have hr := coverage_diff_add_inter reg lookup w table x r.layers next.layers r.timeOriginal
    r.timeMain
  have hn := coverage_diff_add_inter reg lookup w table x next.layers r.layers next.timeOriginal
    next.timeMain
  rw [NameSet.inter_comm] at hn
  unfold ViewRecord.coverage updateSteps
  simp only [List.map_append, List.sum_append, before_coverSteps, after_coverSteps, if_true,
    Bool.false_eq_true, if_false]
  cases case
  case extend =>
    refine ⟨0, ?_, ?_⟩
    · rw [before_moveSteps]
      omega
    · rw [after_moveSteps, ← ho (by decide)]
      omega
  case redo =>
    refine ⟨0, ?_, ?_⟩
    · simp only [List.map_append, List.sum_append, before_coverSteps, if_true,
        Bool.false_eq_true, if_false]
      omega
    · simp only [List.map_append, List.sum_append, after_coverSteps, if_true,
        Bool.false_eq_true, if_false]
      omega
  all_goals
    rw [ho (by decide), hm (by decide) (by decide)] at hn ⊢
    refine ⟨coverage reg lookup w table x (r.layers.inter next.layers) r.timeOriginal r.timeMain,
      ?_, ?_⟩
    · simp only [List.map_nil, List.sum_nil]
      omega
    · simp only [List.map_nil, List.sum_nil]
      omega

theorem timeMain_of_classifyUpdate {r : ViewRecord} {v : ParsedView}
    (hredo : classifyUpdate w r v ≠ .redo) (hextend : classifyUpdate w r v ≠ .extend) :
    v.time = r.timeMain := by
  unfold classifyUpdate at hredo hextend
  by_cases heq : r.timeMain = v.time
  · exact heq.symm
  · rw [if_neg heq] at hredo hextend
    by_cases hover : w.overlaps r.timeOriginal v.time = true
    · rw [if_pos hover] at hextend
      exact absurd rfl hextend
    · rw [if_neg hover] at hredo
      exact absurd rfl hredo

variable (reg lookup w table x) in
/-- The steps for a view lead from what its former record covers to what its new one covers, apart
from what stays as it is. -/
theorem sum_agenda (previous : Option ViewRecord) (v : ParsedView) :
    ∃ stay,
      ((agenda reg w previous v).map (PlanStep.before lookup w table x)).sum + stay =
        coverageOf reg lookup w table x previous ∧
      ((agenda reg w previous v).map (PlanStep.after lookup w table x)).sum + stay =
        coverageOf reg lookup w table x (nextRecord w previous v) := by
  unfold agenda nextRecord nextStatement
  cases previous with
  | none =>
    cases v.disabled
    · refine ⟨0, ?_, ?_⟩
      · rw [before_coverSteps]
        rfl
      · rw [after_coverSteps]
        rfl
    · exact ⟨0, rfl, rfl⟩
  | some r =>
    cases v.disabled
    · refine sum_updateSteps r _ _ ?_ ?_
      · intro hc
        exact if_neg hc
      · intro hredo hextend
        exact timeMain_of_classifyUpdate hredo hextend
    · refine ⟨0, ?_, ?_⟩
      · rw [before_coverSteps]
        rfl
      · rw [after_coverSteps]
        rfl

theorem statement_of_plan {previous : Option ViewRecord} {v : ParsedView} {p : Plan}
    (h : planDirect lookup reg w previous v = .ok p) :
    p.statement = nextStatement w previous v := by
  unfold planDirect planWith at h
  obtain ⟨opss, _, h⟩ := bind_eq_ok.1 h
  cases h
  rfl

/-- Every operation of a plan comes from one of its steps. -/
theorem step_of_operation {previous : Option ViewRecord} {v : ParsedView} {p : Plan}
    {op : PinOperation} (h : planDirect lookup reg w previous v = .ok p)
    (hop : op ∈ p.operations) :
    ∃ s ∈ agenda reg w previous v, ∃ ops,
      s.operations (snapDirect lookup.ask) w = .ok ops ∧ op ∈ ops := by
  unfold planDirect planWith at h
  obtain ⟨opss, hopss, h⟩ := bind_eq_ok.1 h
  cases h
  have hflat : op ∈ opss.flatten := by
    rcases List.mem_append.1 hop with hop | hop
    · exact (List.mem_filter.1 hop).1
    · exact (List.mem_filter.1 hop).1
  obtain ⟨ops, hops, hop⟩ := List.mem_flatten.1 hflat
  obtain ⟨s, hs, hdone⟩ := mem_of_mapM_ok hopss ops hops
  exact ⟨s, hs, ops, hdone, hop⟩

/-- The hull of the column of every operation is known. -/
theorem hull_of_operation {previous : Option ViewRecord} {v : ParsedView} {p : Plan}
    {op : PinOperation} (h : planDirect lookup reg w previous v = .ok p)
    (hop : op ∈ p.operations) :
    ∃ a b range, lookup.hull w op.layer.column a b = .ok range := by
  obtain ⟨s, _, ops, hops, hop⟩ := step_of_operation h hop
  cases s with
  | cover l a b add =>
    obtain ⟨range, hhull, rfl⟩ := hull_of_operations_cover hops
    rw [List.mem_singleton.1 hop]
    exact ⟨a, b, range, hhull⟩
  | move l a b b' =>
    obtain ⟨old, _, _, hold, _, _, rfl⟩ := hulls_of_operations_move hops
    obtain ⟨shift, _, rfl⟩ := List.mem_map.1 hop
    exact ⟨a, b, old, hold⟩
  | unmapped view layer => cases hops

/-- A plan whose steps balance takes down no more than the former record covers, and what remains
with what it puts up is what the new record covers. -/
theorem planDirect_balanced_of_steps {previous : Option ViewRecord} {v : ParsedView} {p : Plan}
    (hs : ∀ s ∈ agenda reg w previous v, s.Balances lookup w table x)
    (h : planDirect lookup reg w previous v = .ok p) :
    Balanced table x p.operations (coverageOf reg lookup w table x previous)
      (coverageOf reg lookup w table x (p.statement.bind ViewStatement.record?)) := by
  unfold planDirect planWith at h
  obtain ⟨opss, hopss, h⟩ := bind_eq_ok.1 h
  cases h
  obtain ⟨hle, heq⟩ := balanced_mapM hs hopss
  obtain ⟨stay, hbefore, hafter⟩ := sum_agenda reg lookup w table x previous v
  change hitCount table x false (_ ++ _) ≤ _ ∧
    hitCount table x false (_ ++ _) +
      coverageOf reg lookup w table x (nextRecord w previous v) =
        hitCount table x true (_ ++ _) + _
  rw [hitCount_sorted, hitCount_sorted]
  constructor
  · omega
  · omega

/-- **The balance of a plan.** On a grid every plan balances. -/
theorem planDirect_balanced (hP : Grid P) (hx : P x) {previous : Option ViewRecord}
    {v : ParsedView} {p : Plan}
    (hprev : ∀ r ∈ previous, r.BoundsOn P reg lookup w table)
    (hnext : ∀ r ∈ nextRecord w previous v, r.BoundsOn P reg lookup w table)
    (h : planDirect lookup reg w previous v = .ok p) :
    Balanced table x p.operations (coverageOf reg lookup w table x previous)
      (coverageOf reg lookup w table x (p.statement.bind ViewStatement.record?)) :=
  planDirect_balanced_of_steps
    (fun _ hs => PlanStep.balanced hP hx (bounded_agenda hprev hnext hs)) h

/-- A view without a record moves no hull, and so its plan balances without a grid. -/
theorem planDirect_balanced_of_new {v : ParsedView} {p : Plan}
    (h : planDirect lookup reg w none v = .ok p) :
    Balanced table x p.operations 0
      (coverageOf reg lookup w table x (p.statement.bind ViewStatement.record?)) := by
  have hsteps : ∀ s ∈ agenda reg w none v, s.Balances lookup w table x := by
    intro s hs
    cases due_agenda hs with
    | unmapped view layer =>
      intro ops hops
      cases hops
    | down hr _ _ _ => cases hr
    | move hr _ _ _ _ => cases hr
    | up _ _ _ _ => exact PlanStep.balances_cover _ _ _ true
  exact planDirect_balanced_of_steps hsteps h

end Balance
end PinLedger
