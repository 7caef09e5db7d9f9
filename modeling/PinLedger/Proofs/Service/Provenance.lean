import PinLedger.Proofs.Layer.Registry
import PinLedger.Proofs.Reconcile.Operations
import PinLedger.Proofs.Reconcile.Records
import PinLedger.Proofs.Service.Execution

/-!
# PinLedger.Proofs.Service.Provenance

Where the pins of a record come from. As long as all plans are made with one registry, every binding
of every layer of a record has been pinned by a plan for its view. What a later plan takes back is
then about bindings that have been pinned, and it forgets none of them.

* `Grounded` — the records are pinned by these plans
* `Plan.Answers` — a plan takes back what has been pinned, and nothing else
* `Grounded.answers` — a plan that is made with the same registry does
* `Grounded.post`, `Grounded.posted` — a view, and a run
-/

namespace PinLedger

/-- The plans are about bindings of the registry, and what the records have of its bindings has been
pinned by them. -/
structure Grounded (reg : Registry) (plans : List Plan) (views : ViewTable) : Prop where
  bound : ∀ q ∈ plans, ∀ op ∈ q.operations, op.layer ∈ reg.layersFor op.layer.layer
  pinned : ∀ r ∈ views.toList, ∀ layer ∈ r.layers, ∀ b ∈ reg.layersFor layer,
    ∃ q ∈ plans, q.view = r.id ∧ ∃ op ∈ q.pins, op.layer = b

/-- What the plan of a view takes back has been pinned for the view by one of the former plans.
Where it takes back a layer as a whole, it takes back all bindings that they have pinned for it. -/
structure Plan.Answers (former : List Plan) (previous : Option ViewRecord) (v : ParsedView)
    (p : Plan) : Prop where
  pinned : ∀ op ∈ p.unpins, ∃ q ∈ former, q.view = v.id ∧ ∃ op' ∈ q.pins, op'.layer = op.layer
  released : ∀ r ∈ previous, ∀ layer ∈ r.layers,
    layer ∉ v.layerSet ∨ v.disabled = true ∨ p.case = .redo →
      ∀ q ∈ former, q.view = v.id → ∀ op ∈ q.pins, op.layer.layer = layer →
        ∃ op' ∈ p.unpins, op'.layer = op.layer

variable {reg : Registry} {w : Window} {plans : List Plan} {g g' : Ledger} {v : ParsedView}
variable {p : Plan} {views : List ParsedView} {sum sum' : RunSummary} {d d' : StoreData} {l : Load}

theorem mem_pins {op : PinOperation} : op ∈ p.pins ↔ op ∈ p.operations ∧ op.add = true :=
  List.mem_filter

theorem mem_unpins {op : PinOperation} : op ∈ p.unpins ↔ op ∈ p.operations ∧ op.add = false := by
  unfold Plan.unpins
  rw [List.mem_filter, Bool.not_eq_true']

namespace Grounded

theorem empty (reg : Registry) : Grounded reg [] .empty :=
  ⟨fun _ hq => absurd hq List.not_mem_nil, fun _ hr => absurd hr List.not_mem_nil⟩

/-- A plan that is made with the registry of the former plans answers them. -/
theorem answers (h : Grounded reg plans g.data.views)
    (hpost : g.post reg w v = .ok (p, g')) : p.Answers plans (g.data.views.find? v.id) v := by
  obtain ⟨hplan, _⟩ := Ledger.post_eq_ok hpost
  constructor
  · intro op hop
    obtain ⟨hop, hdown⟩ := mem_unpins.1 hop
    obtain ⟨r, layer, hr, hlayer, hb⟩ := layer_of_down hplan hop hdown
    obtain ⟨q, hq, hview, hpinned⟩ := h.pinned r (ViewTable.mem_of_find? hr) layer hlayer _ hb
    exact ⟨q, hq, hview.trans (ViewTable.id_of_find? hr), hpinned⟩
  · intro r hr layer hlayer hgone q hq _ op hop hof
    have hb : op.layer ∈ reg.layersFor layer := by
      have hbound := h.bound q hq op (mem_pins.1 hop).1
      rw [hof] at hbound
      exact hbound
    rw [case_of_plan hplan] at hgone
    rw [Option.mem_def.1 hr] at hplan hgone
    obtain ⟨range, _, hmem⟩ :=
      operation_of_cover hplan (mem_agenda_of_removed hlayer hgone hb)
    exact ⟨_, mem_unpins.2 ⟨hmem, rfl⟩, rfl⟩

/-- After a view that was posted its plan is one more. -/
theorem post (hreg : reg.Keyed) (h : Grounded reg plans g.data.views)
    (hpost : g.post reg w v = .ok (p, g')) : Grounded reg (plans ++ [p]) g'.data.views := by
  obtain ⟨hplan, d, hpins, hdata, _⟩ := Ledger.post_eq_ok hpost
  have hviews : g'.data.views =
      (nextStatement w (g.data.views.find? v.id) v).toList.foldl ViewTable.apply g.data.views := by
    rw [hdata, statement_of_plan hplan, ← views_applyPins hpins]
  constructor
  · intro q hq op hop
    rcases List.mem_append.1 hq with hq | hq
    · exact h.bound q hq op hop
    · rw [List.mem_singleton.1 hq] at hop
      obtain ⟨layer, hb⟩ := layer_of_operation hplan hop
      rw [hreg layer _ hb]
      exact hb
  · intro r hr layer hlayer b hb
    rw [hviews] at hr
    have hold : (∃ r₀ ∈ g.data.views.toList, r₀.id = r.id ∧ layer ∈ r₀.layers) →
        ∃ q ∈ plans ++ [p], q.view = r.id ∧ ∃ op ∈ q.pins, op.layer = b := by
      rintro ⟨r₀, hr₀, hid, hlayer₀⟩
      obtain ⟨q, hq, hview, hpinned⟩ := h.pinned r₀ hr₀ layer hlayer₀ b hb
      exact ⟨q, List.mem_append_left _ hq, hview.trans hid, hpinned⟩
    rcases mem_nextStatement hr with hnext | hr
    · have hid : r.id = v.id := id_of_nextRecord hnext
      by_cases hprev : ∀ r₀ ∈ g.data.views.find? v.id, layer ∉ r₀.layers
      · -- the layer is taken up by this plan
        obtain ⟨range, _, hmem⟩ :=
          operation_of_cover hplan (mem_agenda_of_added hnext hlayer hb hprev)
        have hview : p.view = r.id := by
          rw [view_of_plan hplan, hid]
          cases hfind : g.data.views.find? v.id with
          | none => rfl
          | some r₀ => exact ViewTable.id_of_find? hfind
        exact ⟨p, List.mem_append_right _ (List.mem_singleton_self p), hview, _,
          mem_pins.2 ⟨hmem, rfl⟩, rfl⟩
      · obtain ⟨r₀, hprev⟩ := not_forall.1 hprev
        obtain ⟨hr₀, hnot⟩ := Classical.not_imp.1 hprev
        refine hold ⟨r₀, ViewTable.mem_of_find? hr₀, ?_, not_not.1 hnot⟩
        rw [hid]
        exact ViewTable.id_of_find? hr₀
    · exact hold ⟨r, hr, rfl, hlayer⟩

theorem postAll (hreg : reg.Keyed) (h : Grounded reg plans g.data.views)
    (hposts : Ledger.postAll reg w sum g views = .ok (sum', g')) :
    Grounded reg (plans ++ g.plans reg w views) g'.data.views := by
  induction views generalizing sum g plans with
  | nil =>
    cases hposts
    rw [Ledger.plans, List.append_nil]
    exact h
  | cons v views ih =>
    obtain ⟨⟨p, k⟩, hpost, hposts⟩ := bind_eq_ok.1 hposts
    rw [Ledger.plans_cons hpost, List.append_cons]
    exact ih (h.post hreg hpost) hposts

/-- After a run its plans are there as well. A run from scratch leaves no others. -/
theorem posted (hreg : l.registry.Keyed)
    (h : l.fresh = true ∨ Grounded l.registry plans d.views) (hpost : l.post w d = .ok (sum, d')) :
    Grounded l.registry ((if l.fresh then [] else plans) ++ l.plans w d) d'.views := by
  rw [Load.post_eq] at hpost
  obtain ⟨k, hstart, hrun⟩ := bind_eq_ok.1 hpost
  obtain ⟨⟨s, k'⟩, hposts, heq⟩ := bind_eq_ok.1 hrun
  cases heq
  have hclosed : (k'.closed l.watermark).views = k'.data.views := by
    unfold Ledger.closed
    cases l.watermark with
    | none => rfl
    | some t => rfl
  have hground : Grounded l.registry (if l.fresh then [] else plans) k.data.views := by
    obtain ⟨d₁, hresets, hdata, _⟩ := Load.of_start hstart
    rw [hdata]
    cases hfresh : l.fresh
    · have hsame : d₁.views = d.views := views_applyPins hresets
      rw [hfresh] at h
      show Grounded l.registry plans d₁.views
      rw [hsame]
      exact h.resolve_left Bool.false_ne_true
    · exact empty l.registry
  rw [hclosed]
  unfold Load.plans
  rw [hstart]
  exact hground.postAll hreg hposts

end Grounded

end PinLedger
