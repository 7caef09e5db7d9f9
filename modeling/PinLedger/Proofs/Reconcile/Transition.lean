import PinLedger.Feed.Page
import PinLedger.Proofs.Reconcile.Coverage

/-!
# PinLedger.Proofs.Reconcile.Transition

What a plan does to a single instant of a table. The lookup may answer as it likes: snapped bounds
may come in any order and need not be times of rows, as long as they and the instant are a tick
apart.

* `ViewRecord.HasBound` — the bounds of the snapped hulls of a record in a table
* `plan_moves_coverage` — a plan leads from the coverage of the former record to that of the new one
-/

namespace PinLedger

variable {reg : Registry} {lookup : RowLookup} {w : Window} {table : String} {x : Instant}
variable {previous : Option ViewRecord} {v : ParsedView} {p : Plan}

/-- `t` is a bound of the snapped hull of the record for one of its bindings to a table. -/
def ViewRecord.HasBound (r : ViewRecord) (reg : Registry) (lookup : RowLookup) (w : Window)
    (table : String) (t : Instant) : Prop :=
  ∃ layer ∈ r.layers, ∃ l ∈ reg.layersFor layer, l.column.table = table ∧
    ∃ range, lookup.hull w l.column r.timeOriginal r.timeMain = .ok range ∧
      (t = range.start ∨ t = range.stop)

theorem ViewRecord.boundsOn_of_hasBound {r : ViewRecord} {P : Instant → Prop}
    (h : ∀ t, r.HasBound reg lookup w table t → P t) : r.BoundsOn P reg lookup w table := by
  intro layer hlayer l hl htable range hrange
  constructor
  · exact h _ ⟨layer, hlayer, l, hl, htable, range, hrange, .inl rfl⟩
  · exact h _ ⟨layer, hlayer, l, hl, htable, range, hrange, .inr rfl⟩

theorem record_of_plan (h : planDirect lookup reg w previous v = .ok p) :
    p.record = nextRecord w previous v := by
  unfold nextRecord
  rw [← statement_of_plan h]
  unfold Plan.record
  rcases p.statement with _ | s
  · rfl
  · cases s with
    | insert r => rfl
    | update r => rfl
    | delete id => rfl

/-- The instants that have to be a tick apart: `x`, and the bounds of the hulls of the records. -/
def Marks (reg : Registry) (lookup : RowLookup) (w : Window) (table : String) (x : Instant)
    (previous next : Option ViewRecord) (t : Instant) : Prop :=
  t = x ∨ ∃ r, (previous = some r ∨ next = some r) ∧ r.HasBound reg lookup w table t

/-- **A plan moves the coverage of a view.** At every instant of a table it takes down no more than
the former record covers; what is left, with what it puts up, is what the record covers that it
leaves behind, and nothing if it leaves none. -/
theorem plan_moves_coverage (hgrid : Grid (Marks reg lookup w table x previous p.record))
    (h : plan lookup reg w previous v = .ok p) :
    hitCount table x false p.operations ≤ coverageOf reg lookup w table x previous ∧
      coverageOf reg lookup w table x previous - hitCount table x false p.operations +
          hitCount table x true p.operations =
        coverageOf reg lookup w table x p.record := by
  rw [plan_eq_planDirect] at h
  have hrecord := record_of_plan h
  have hprev : ∀ r ∈ previous, r.BoundsOn (Marks reg lookup w table x previous p.record)
      reg lookup w table := by
    intro r hr
    exact ViewRecord.boundsOn_of_hasBound fun t ht => .inr ⟨r, .inl hr, ht⟩
  have hnext : ∀ r ∈ nextRecord w previous v, r.BoundsOn
      (Marks reg lookup w table x previous p.record) reg lookup w table := by
    intro r hr
    rw [← hrecord] at hr
    exact ViewRecord.boundsOn_of_hasBound fun t ht => .inr ⟨r, .inr hr, ht⟩
  obtain ⟨hle, hbalance⟩ := planDirect_balanced hgrid (.inl rfl) hprev hnext h
  rw [statement_of_plan h] at hbalance
  change _ + coverageOf reg lookup w table x (nextRecord w previous v) = _ at hbalance
  rw [hrecord]
  refine ⟨hle, ?_⟩
  omega

/-! A view that moves twenty minutes on, gives up one layer and takes another. -/

/-- Minutes after three in the afternoon. -/
def pastThree (minutes : UInt8) : Instant :=
  ⟨1742482800 + 60 * minutes.toNat, 0, Instant.epoch.nano_lt, by omega,
    by have := minutes.toNat_lt; omega⟩

def drifting : ViewRecord where
  id := 1
  timeOriginal := pastThree 30
  timeMain := pastThree 30
  layers := .ofList ["rain", "wind"]
  lastUpdate := .clock
  drivingLayer := none

def drifted : ParsedView where
  id := 1
  layers := ["wind", "hail"]
  time := pastThree 50
  timeMode := .absolute
  disabled := false
  drivingLayer := none
  lastUpdate := none

def weather : Registry := .ofLayers
  [⟨"rain", "sky", "rain", ⟨"obs", "time"⟩⟩, ⟨"wind", "sky", "wind", ⟨"obs", "time"⟩⟩,
   ⟨"hail", "sky", "hail", ⟨"obs", "time"⟩⟩]

def hour : Window := .ofMinutes 60

/-- The hulls of the drifting view reach from three to four, and to twenty past four. -/
theorem marks_drifted {t : Instant} {next : ViewRecord}
    (hnext : next.timeOriginal = pastThree 30 ∧ next.timeMain = pastThree 50)
    (h : Marks weather .dense hour "obs" (pastThree 40) (some drifting) (some next) t) :
    t ∈ [pastThree 40, pastThree 0, pastThree 60, pastThree 80] := by
  rcases h with rfl | ⟨r, hr, layer, _, l, _, _, range, hrange, ht⟩
  · exact List.mem_cons_self
  · rcases hr with hr | hr
    · cases hr
      have hhull : RowLookup.dense.hull hour l.column drifting.timeOriginal drifting.timeMain =
        .ok (.between (pastThree 0) (pastThree 60)) := rfl
      rw [hhull] at hrange
      cases hrange
      rcases ht with rfl | rfl
      · decide
      · decide
    · cases hr
      have hhull : RowLookup.dense.hull hour l.column (pastThree 30) (pastThree 50) =
        .ok (.between (pastThree 0) (pastThree 80)) := rfl
      rw [hnext.1, hnext.2, hhull] at hrange
      cases hrange
      rcases ht with rfl | rfl
      · decide
      · decide

theorem plan_moves_coverage_drifted :
    ∃ p, plan .dense weather hour (some drifting) drifted = .ok p ∧
      hitCount "obs" (pastThree 40) false p.operations ≤ 2 ∧
      2 - hitCount "obs" (pastThree 40) false p.operations +
        hitCount "obs" (pastThree 40) true p.operations = 2 := by
  have hold : coverageOf weather .dense hour "obs" (pastThree 40) (some drifting) = 2 := by
    decide +kernel
  cases hp : plan .dense weather hour (some drifting) drifted with
  | error e =>
    have hok : (plan .dense weather hour (some drifting) drifted).toOption.isSome = true := by
      decide +kernel
    rw [hp] at hok
    cases hok
  | ok p =>
    have hrecord : p.record = some (updatedRecord drifting drifted .extend) := by
      rw [plan_eq_planDirect] at hp
      rw [record_of_plan hp]
      decide +kernel
    have hgrid : Grid (Marks weather .dense hour "obs" (pastThree 40) (some drifting) p.record) := by
      have hlist : Grid (· ∈ [pastThree 40, pastThree 0, pastThree 60, pastThree 80]) :=
        grid_of_list (by decide) (by decide)
      rw [hrecord]
      exact ⟨fun a ha => hlist.leapFree a (marks_drifted ⟨rfl, rfl⟩ ha),
        fun a b ha hb => hlist.apart a b (marks_drifted ⟨rfl, rfl⟩ ha)
          (marks_drifted ⟨rfl, rfl⟩ hb)⟩
    have h := plan_moves_coverage hgrid hp
    rw [hold, hrecord] at h
    have hnew : coverageOf weather .dense hour "obs" (pastThree 40)
        (some (updatedRecord drifting drifted .extend)) = 2 := by decide +kernel
    rw [hnew] at h
    exact ⟨p, rfl, h⟩

end PinLedger
