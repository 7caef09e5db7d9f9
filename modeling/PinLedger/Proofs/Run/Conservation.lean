import PinLedger.Proofs.Layer.Registry
import PinLedger.Proofs.Reconcile.Operations
import PinLedger.Proofs.Run.Transaction
import PinLedger.Proofs.Store.Pins
import PinLedger.Proofs.ViewTable

/-!
# PinLedger.Proofs.Run.Conservation

Pins are conserved: every row has as many pins as there are records, layers and bindings whose
snapped hull holds its time. A plan changes both numbers by the same amount, and a run is a sequence
of plans.

* `StoreData.Tallied` — the counts compare with what the records cover and something else besides
* `StoreData.Accounted` — the counts are what the records cover
* `Tallied.post`, `Accounted.post` — a view that is posted keeps both
* `Tallied.run`, `Accounted.run` — so do whole runs
* `Counted.wipe`, `Accounted.wipe` — what is left when everything is dropped
-/

namespace PinLedger

namespace StoreData

/-- The row times of every table lie on a grid. -/
def Spaced (d : StoreData) : Prop :=
  ∀ name t, d.tables.find? name = some t → Grid (· ∈ t.times)

/-- There is a table with this column. -/
def Known (d : StoreData) (c : Column) : Prop :=
  ∃ t, d.tables.find? c.table = some t ∧ t.column = c.name

/-- How often the records cover a time of a table. -/
def coverage (d : StoreData) (reg : Registry) (w : Window) (table : String) (x : Instant) : Nat :=
  d.views.total fun r => r.coverage reg d.lookup w table x

/-- The counts compare by `R` with what the records cover, and `extra` besides. -/
def Tallied (R : Int → Nat → Prop) (extra : String → Instant → Nat) (reg : Registry) (w : Window)
    (d : StoreData) : Prop :=
  d.Counted R fun name x => d.coverage reg w name x + extra name x

/-- The pins are what the records make them, and the records are pinned to columns that exist. -/
structure Accounted (reg : Registry) (w : Window) (d : StoreData) : Prop where
  pins : d.Pinned (d.coverage reg w)
  known : ∀ r ∈ d.views.toList, ∀ layer ∈ r.layers, ∀ b ∈ reg.layersFor layer, d.Known b.column

end StoreData

variable {reg : Registry} {w : Window} {d d' : StoreData} {v : ParsedView} {p : Plan}
variable {previous : Option ViewRecord} {g g' : Ledger}

/-! ### Plans -/

theorem le_total (t : ViewTable) (f : ViewRecord → Nat) (id : Int) :
    (t.find? id).elim 0 f ≤ t.total f := by
  have h := t.total_erase f id
  omega

/-! ### Pins -/

/-- In a table on a grid every plan balances. -/
theorem balanced_of_plan {name : String} {t : Table} {x : Instant}
    (hgrid : Grid (· ∈ t.times)) (hfind : d.tables.find? name = some t) (hx : x ∈ t.times)
    (h : planDirect d.lookup reg w previous v = .ok p) :
    Balanced name x p.operations (coverageOf reg d.lookup w name x previous)
      (coverageOf reg d.lookup w name x (p.statement.bind ViewStatement.record?)) := by
  have hrows : t.times ≠ [] := List.ne_nil_of_mem hx
  exact planDirect_balanced hgrid hx
    (fun r _ => boundsOn_times reg hfind hrows r) (fun r _ => boundsOn_times reg hfind hrows r) h

/-- The operations of a plan that balances take down no more than the records cover, and lead to what
they cover with the change of the plan. -/
theorem coverage_of_plan {name : String} {x : Instant}
    (h : planDirect d.lookup reg w (d.views.find? v.id) v = .ok p)
    (hp : Balanced name x p.operations (coverageOf reg d.lookup w name x (d.views.find? v.id))
      (coverageOf reg d.lookup w name x (p.statement.bind ViewStatement.record?))) :
    hitCount name x false p.operations ≤ d.coverage reg w name x ∧
      (p.statement.toList.foldl ViewTable.apply d.views).total
          (fun r => r.coverage reg d.lookup w name x) =
        d.coverage reg w name x - hitCount name x false p.operations +
          hitCount name x true p.operations := by
  obtain ⟨hle, hbalance⟩ := hp
  have htotal := total_nextStatement d.views (fun r => r.coverage reg d.lookup w name x) w v
  have hbound := le_total d.views (fun r => r.coverage reg d.lookup w name x) v.id
  rw [statement_of_plan h] at hbalance ⊢
  unfold coverageOf at hle hbalance
  unfold nextRecord at htotal
  unfold StoreData.coverage
  refine ⟨?_, ?_⟩
  · omega
  · omega

theorem StoreData.Spaced.of_skeleton (hd : d.Spaced) (h : d'.skeleton = d.skeleton) :
    d'.Spaced := by
  intro name t' ht'
  obtain ⟨t, ht, _, htimes⟩ := times_of_skeleton_eq h ht'
  rw [← htimes]
  exact hd name t ht

theorem StoreData.Known.of_skeleton {c : Column} (hc : d.Known c) (h : d'.skeleton = d.skeleton) :
    d'.Known c := by
  obtain ⟨t, ht, hcolumn⟩ := hc
  have hname := congrFun h c.table
  unfold StoreData.skeleton at hname
  rw [ht] at hname
  obtain ⟨t', ht', heq⟩ := Option.map_eq_some_iff.1 hname
  exact ⟨t', ht', (Prod.mk.inj heq).1.trans hcolumn⟩

/-! ### Columns that exist -/

/-- The columns of a record that a plan leaves behind exist, if those of the former record do. -/
theorem known_of_plan {next : ViewRecord} {layer : String} {b : MappedLayer}
    (h : planDirect d.lookup reg w previous v = .ok p)
    (hnext : nextRecord w previous v = some next) (hlayer : layer ∈ next.layers)
    (hb : b ∈ reg.layersFor layer)
    (hprev : ∀ r ∈ previous, layer ∈ r.layers → d.Known b.column) : d.Known b.column := by
  by_cases hold : ∃ r ∈ previous, layer ∈ r.layers
  · obtain ⟨r, hr, hmem⟩ := hold
    exact hprev r hr hmem
  · have hadded : ∀ r ∈ previous, layer ∉ r.layers := fun r hr hmem => hold ⟨r, hr, hmem⟩
    obtain ⟨range, hhull, _⟩ := operation_of_cover h (mem_agenda_of_added hnext hlayer hb hadded)
    obtain ⟨t, ht, hcolumn, _⟩ := hull_eq_ok hhull
    exact ⟨t, ht, hcolumn⟩

namespace StoreData

variable {R : Int → Nat → Prop} {extra : String → Instant → Nat}

/-- A view that is posted keeps the counts in their relation to the records, if its plan balances. -/
theorem Tallied.post_of_balanced (hR : Comparison R) (hg : g.data.Tallied R extra reg w)
    (hp : ∀ name t, g.data.tables.find? name = some t → ∀ x ∈ t.times,
      Balanced name x p.operations
        (coverageOf reg g.data.lookup w name x (g.data.views.find? v.id))
        (coverageOf reg g.data.lookup w name x (p.statement.bind ViewStatement.record?)))
    (h : g.post reg w v = .ok (p, g')) : g'.data.Tallied R extra reg w := by
  obtain ⟨hplan, d, hpins, hdata, _, _⟩ := Ledger.post_eq_ok h
  have hviews : d.views = g.data.views := views_applyPins hpins
  have hlookup : d.lookup = g.data.lookup := lookup_congr (skeleton_applyPins hpins)
  have hcounted : d.Counted R fun name x => g'.data.coverage reg w name x + extra name x := by
    refine Counted.operations hR hg (operations_sorted hplan) hpins ?_
    intro name t ht x hx
    obtain ⟨hle, htotal⟩ := coverage_of_plan hplan (hp name t ht x hx)
    rw [← hlookup, ← hviews] at htotal
    have hcover : g'.data.coverage reg w name x =
        g.data.coverage reg w name x - hitCount name x false p.operations +
          hitCount name x true p.operations := by
      rw [← htotal, hdata]
      rfl
    omega
  rw [hdata] at hcounted
  unfold Tallied
  rw [hdata]
  exact hcounted

/-- On a grid every view that is posted does. -/
theorem Tallied.post (hR : Comparison R) (hspaced : g.data.Spaced)
    (hg : g.data.Tallied R extra reg w) (h : g.post reg w v = .ok (p, g')) :
    g'.data.Tallied R extra reg w := by
  refine hg.post_of_balanced hR ?_ h
  intro name t ht x hx
  exact balanced_of_plan (hspaced name t ht) ht hx (Ledger.post_eq_ok h).1

/-- A view without a record keeps the counts so without a grid. -/
theorem Tallied.post_of_new (hR : Comparison R) (hnew : g.data.views.find? v.id = none)
    (hg : g.data.Tallied R extra reg w) (h : g.post reg w v = .ok (p, g')) :
    g'.data.Tallied R extra reg w := by
  have hplan := (Ledger.post_eq_ok h).1
  refine hg.post_of_balanced hR ?_ h
  intro name t _ x _
  rw [hnew] at hplan ⊢
  exact planDirect_balanced_of_new hplan

/-- The records are pinned to columns that exist. -/
def Placed (reg : Registry) (d : StoreData) : Prop :=
  ∀ r ∈ d.views.toList, ∀ layer ∈ r.layers, ∀ b ∈ reg.layersFor layer, d.Known b.column

/-- A view that is posted keeps the records where columns exist. -/
theorem Placed.post (hg : g.data.Placed reg) (h : g.post reg w v = .ok (p, g')) :
    g'.data.Placed reg := by
  obtain ⟨hplan, d, hpins, hdata, _, _⟩ := Ledger.post_eq_ok h
  intro r hr layer hlayer b hb
  have hr' : r ∈ ((nextStatement w (g.data.views.find? v.id) v).toList.foldl ViewTable.apply
      g.data.views).toList := by
    rw [hdata, views_applyPins hpins, statement_of_plan hplan] at hr
    exact hr
  refine Known.of_skeleton ?_ (Ledger.skeleton_post h)
  rcases mem_nextStatement hr' with hnext | hr'
  · refine known_of_plan hplan hnext hlayer hb ?_
    intro r₀ hr₀ hmem
    exact hg r₀ (ViewTable.mem_of_find? hr₀) layer hmem b hb
  · exact hg r hr' layer hlayer b hb

/-- A view that is posted keeps the pins accounted for. -/
theorem Accounted.post (hspaced : g.data.Spaced) (hg : g.data.Accounted reg w)
    (h : g.post reg w v = .ok (p, g')) : g'.data.Accounted reg w where
  pins := by
    have hpins : g.data.Tallied (fun p n => p = n) (fun _ _ => 0) reg w := hg.pins
    exact hpins.post comparison_eq hspaced h
  known := Placed.post hg.known h

/-! ### Whole runs -/

theorem Tallied.run (hR : Comparison R) {views : List ParsedView} {watermark : Option Instant}
    {sum : RunSummary} (hspaced : g.data.Spaced) (hg : g.data.Tallied R extra reg w)
    (h : Ledger.run reg w views watermark g = .ok (sum, d')) : d'.Tallied R extra reg w := by
  have hrun := Ledger.keeps_run (P := fun d => d.Spaced ∧ d.Tallied R extra reg w)
    (fun hk hpost => ⟨hk.1.of_skeleton (Ledger.skeleton_post hpost), hk.2.post hR hk.1 hpost⟩)
    (fun _ hd => hd) ⟨hspaced, hg⟩ h
  exact hrun.2

theorem Accounted.run {views : List ParsedView} {watermark : Option Instant} {sum : RunSummary}
    (hspaced : g.data.Spaced) (hg : g.data.Accounted reg w)
    (h : Ledger.run reg w views watermark g = .ok (sum, d')) : d'.Accounted reg w := by
  have hrun := Ledger.keeps_run (P := fun d => d.Spaced ∧ d.Accounted reg w)
    (fun hk hpost => ⟨hk.1.of_skeleton (Ledger.skeleton_post hpost), hk.2.post hk.1 hpost⟩)
    (fun _ hd => ⟨hd.1, hd.2.pins, hd.2.known⟩) ⟨hspaced, hg⟩ h
  exact hrun.2

/-- A table that no binding names is covered by no record. -/
theorem coverage_eq_zero {name : String} (hname : name ∉ reg.tables) (x : Instant) :
    d.coverage reg w name x = 0 := by
  unfold coverage ViewTable.total ViewRecord.coverage PinLedger.coverage
  rw [List.sum_eq_zero_iff_forall_eq_nat]
  intro n hn
  obtain ⟨r, _, rfl⟩ := List.mem_map.1 hn
  rw [List.sum_eq_zero_iff_forall_eq_nat]
  intro m hm
  obtain ⟨layer, _, rfl⟩ := List.mem_map.1 hm
  rw [List.countP_eq_zero]
  intro b hb hpins
  obtain ⟨htable, _⟩ := Bool.and_eq_true_iff.1 hpins
  have hmem := Registry.table_mem_tables hb
  rw [beq_iff_eq.1 htable] at hmem
  exact hname hmem

/-- Without records nothing is covered. -/
theorem coverage_of_no_views (h : d.views = .empty) (name : String) (x : Instant) :
    d.coverage reg w name x = 0 := by
  unfold coverage
  rw [h]
  rfl

/-- The tables that a run from scratch leaves alone are covered by no record. -/
theorem coverage_elsewhere (d : StoreData) (reg : Registry) (w : Window) :
    (fun name x => if name ∈ reg.tables then 0 else d.coverage reg w name x) = fun _ _ => 0 := by
  funext name x
  by_cases hname : name ∈ reg.tables
  · rw [if_pos hname]
  · rw [if_neg hname, coverage_eq_zero hname]

/-- What is left when all pins and records are dropped: the tables of the registry start again, all
others stay as they are. -/
theorem Counted.wipe {f : String → Instant → Nat} (hR : Comparison R) (hg : g.data.Counted R f)
    (h : g.wipe reg = .ok g') :
    g'.data.Tallied R (fun name x => if name ∈ reg.tables then 0 else f name x) reg w := by
  obtain ⟨g₁, hpin, heq⟩ := map_eq_ok.1 h
  obtain ⟨hpins, _, _⟩ := Ledger.pin_eq_ok hpin
  have hviews : g'.data.views = .empty := by rw [← heq]
  have htables : g'.data.tables = g₁.data.tables := by rw [← heq]
  intro name t ht r hr
  rw [htables] at ht
  show R r.pin (_ + _)
  rw [coverage_of_no_views hviews, Nat.zero_add]
  exact Counted.resets hR hg hpins name t ht r hr

theorem Accounted.wipe (hg : g.data.Accounted reg w) (h : g.wipe reg = .ok g') :
    g'.data.Accounted reg w where
  pins := by
    have hwiped : g'.data.Tallied _ _ reg w := Counted.wipe (w := w) comparison_eq hg.pins h
    rw [coverage_elsewhere] at hwiped
    exact hwiped
  known := by
    obtain ⟨g₁, _, rfl⟩ := map_eq_ok.1 h
    intro r hr
    cases hr

end StoreData

end PinLedger
