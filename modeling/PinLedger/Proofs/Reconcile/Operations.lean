import PinLedger.Proofs.Reconcile.Coverage

/-!
# PinLedger.Proofs.Reconcile.Operations

The operations of a plan: what goes down stands before what goes up, and every operation is about the
binding of a step.

* `operations_sorted` — the order of the operations
* `operation_of_cover` — the operation of a hull that goes up or down as a whole
* `layer_of_operation`, `layer_of_down` — the bindings of the operations of a plan
* `record_of_up` — what goes up is for the record that the plan leaves behind
-/

namespace PinLedger

variable {reg : Registry} {lookup : RowLookup} {w : Window} {previous : Option ViewRecord}
variable {v : ParsedView} {p : Plan} {s : PlanStep} {b : MappedLayer}

theorem view_of_plan (h : planDirect lookup reg w previous v = .ok p) :
    p.view = previous.elim v.id (·.id) := by
  unfold planDirect planWith at h
  obtain ⟨opss, _, h⟩ := bind_eq_ok.1 h
  cases h
  rfl

theorem case_of_plan (h : planDirect lookup reg w previous v = .ok p) :
    p.case = classify w previous v := by
  unfold planDirect planWith at h
  obtain ⟨opss, _, h⟩ := bind_eq_ok.1 h
  cases h
  rfl

theorem filter_sorted (ops sorted : List PinOperation)
    (h : sorted = ops.filter (!·.add) ++ ops.filter (·.add)) :
    sorted = sorted.filter (!·.add) ++ sorted.filter (·.add) := by
  have hnone : ops.filter (fun _ => false) = [] := by
    rw [List.filter_eq_nil_iff]
    simp
  rw [h]
  simp [List.filter_filter, hnone]

/-- What goes down stands before what goes up. -/
theorem operations_sorted (h : planDirect lookup reg w previous v = .ok p) :
    p.operations = p.operations.filter (!·.add) ++ p.operations.filter (·.add) := by
  unfold planDirect planWith at h
  obtain ⟨opss, _, h⟩ := bind_eq_ok.1 h
  cases h
  exact filter_sorted opss.flatten _ rfl

/-- A hull that goes up or down as a whole is an operation of the plan. -/
theorem operation_of_cover {t u : Instant} {add : Bool}
    (h : planDirect lookup reg w previous v = .ok p)
    (hs : PlanStep.cover b t u add ∈ agenda reg w previous v) :
    ∃ range, lookup.hull w b.column t u = .ok range ∧ ⟨b, range, add⟩ ∈ p.operations := by
  unfold planDirect planWith at h
  obtain ⟨opss, hopss, h⟩ := bind_eq_ok.1 h
  cases h
  obtain ⟨ops, hmem, hops⟩ := ok_of_mapM hopss _ hs
  obtain ⟨range, hhull, rfl⟩ := hull_of_operations_cover hops
  have hflat : (⟨b, range, add⟩ : PinOperation) ∈ opss.flatten :=
    List.mem_flatten.2 ⟨_, hmem, List.mem_singleton_self _⟩
  refine ⟨range, hhull, List.mem_append.2 ?_⟩
  cases add
  · exact .inl (List.mem_filter.2 ⟨hflat, rfl⟩)
  · exact .inr (List.mem_filter.2 ⟨hflat, rfl⟩)

/-- The binding of an operation is that of a step. -/
theorem layer_of_operations {ops : List PinOperation} {op : PinOperation}
    (hs : s.operations (snapDirect lookup.ask) w = .ok ops) (hop : op ∈ ops) :
    (∃ t u, s = .cover op.layer t u op.add) ∨ ∃ t u u', s = .move op.layer t u u' := by
  cases s with
  | cover l t u add =>
    obtain ⟨range, _, rfl⟩ := hull_of_operations_cover hs
    rw [List.mem_singleton.1 hop]
    exact .inl ⟨t, u, rfl⟩
  | move l t u u' =>
    obtain ⟨old, new, ds, _, _, _, rfl⟩ := hulls_of_operations_move hs
    obtain ⟨shift, _, rfl⟩ := List.mem_map.1 hop
    exact .inr ⟨t, u, u', rfl⟩
  | unmapped view layer => cases hs

/-- Every operation of a plan is about a binding of the registry. -/
theorem layer_of_operation {op : PinOperation} (h : planDirect lookup reg w previous v = .ok p)
    (hop : op ∈ p.operations) : ∃ layer, op.layer ∈ reg.layersFor layer := by
  obtain ⟨s, hs, ops, hops, hop⟩ := step_of_operation h hop
  obtain ⟨l, range, add⟩ := op
  rcases layer_of_operations hops hop with ⟨t, u, rfl⟩ | ⟨t, u, u', rfl⟩
  · cases due_agenda hs with
    | down _ _ _ hb => exact ⟨_, hb⟩
    | up _ _ _ hb => exact ⟨_, hb⟩
  · cases due_agenda hs with
    | move _ _ _ _ hb => exact ⟨_, hb⟩

/-- What goes down is about a binding of a layer of the former record. -/
theorem layer_of_down {op : PinOperation} (h : planDirect lookup reg w previous v = .ok p)
    (hop : op ∈ p.operations) (hdown : op.add = false) :
    ∃ r layer, previous = some r ∧ layer ∈ r.layers ∧ op.layer ∈ reg.layersFor layer := by
  obtain ⟨s, hs, ops, hops, hop⟩ := step_of_operation h hop
  rcases layer_of_operations hops hop with ⟨t, u, rfl⟩ | ⟨t, u, u', rfl⟩
  · rw [hdown] at hs
    cases due_agenda hs with
    | down hr hlayer _ hb => exact ⟨_, _, hr, hlayer, hb⟩
  · cases due_agenda hs with
    | move hr hlayer _ _ hb => exact ⟨_, _, hr, hlayer, hb⟩

/-- What goes up is for a record that is left behind. -/
theorem record_of_up {op : PinOperation} (h : planDirect lookup reg w previous v = .ok p)
    (hop : op ∈ p.operations) (hup : op.add = true) :
    ∃ next, nextRecord w previous v = some next := by
  obtain ⟨s, hs, ops, hops, hop⟩ := step_of_operation h hop
  rcases layer_of_operations hops hop with ⟨t, u, rfl⟩ | ⟨t, u, u', rfl⟩
  · rw [hup] at hs
    cases due_agenda hs with
    | up hnext _ _ _ => exact ⟨_, hnext⟩
  · cases due_agenda hs with
    | move hr _ _ hcase _ =>
      subst hr
      exact ⟨_, nextRecord_of_extend hcase⟩

end PinLedger
