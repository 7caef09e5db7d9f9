import PinLedger.Proofs.Store.Pins

/-!
# PinLedger.Proofs.Store.Floor

Statements that never meet the floor. A count does not go below zero: a row without pins is passed
over when its range goes down. Where every statement finds all rows of its range pinned at its turn,
that never happens, and going down without looking would do the same.

* `StoreData.Funded`, `StoreData.Funds` — statements that find all their rows pinned
* `StoreData.bare` — the data that pin statements read and change
* `applyUnguarded_of_funds` — they do the same when the guard is left out
* `funds_operations` — operations that take down no more than is there
-/

namespace PinLedger

namespace StoreData

/-- A statement that goes down finds every row of its range pinned. -/
def Funded (d : StoreData) : PinStatement → Prop
  | .shift c range add => add = false → ∀ t, d.tables.find? c.table = some t →
      ∀ r ∈ t.rows, r.time ∈ range → 0 < r.pin
  | .reset _ => True

/-- Each of some statements finds its rows pinned when its turn comes. -/
def Funds (d : StoreData) : List PinStatement → Prop
  | [] => True
  | s :: l => d.Funded s ∧ ∀ d', d.applyPin s = .ok d' → d'.Funds l

end StoreData

variable {d d' : StoreData} {s : PinStatement} {l l' : List PinStatement}

theorem funds_append :
    d.Funds (l ++ l') ↔ d.Funds l ∧ ∀ d', d.applyPins l = .ok d' → d'.Funds l' := by
  induction l generalizing d with
  | nil =>
    constructor
    · intro h
      refine ⟨trivial, ?_⟩
      intro d' hd
      cases hd
      exact h
    · intro h
      exact h.2 d rfl
  | cons s l ih =>
    constructor
    · rintro ⟨hs, hl⟩
      refine ⟨⟨hs, fun d₁ h₁ => (ih.1 (hl d₁ h₁)).1⟩, ?_⟩
      intro d' hd
      rw [applyPins_cons] at hd
      obtain ⟨d₁, h₁, hd⟩ := bind_eq_ok.1 hd
      exact (ih.1 (hl d₁ h₁)).2 d' hd
    · rintro ⟨⟨hs, hl⟩, hl'⟩
      refine ⟨hs, ?_⟩
      intro d₁ h₁
      refine ih.2 ⟨hl d₁ h₁, ?_⟩
      intro d' hd
      refine hl' d' ?_
      rw [applyPins_cons, h₁]
      exact hd

/-- A statement that goes down, somewhere among those that find their rows pinned, has found its
table, and all its rows pinned. -/
theorem pinned_of_funds {c : Column} {range : TimeRange}
    (h : d.Funds (l ++ .shift c range false :: l'))
    (hd : d.applyPins (l ++ .shift c range false :: l') = .ok d') :
    ∃ d₁ t, d.applyPins l = .ok d₁ ∧ d₁.tables.find? c.table = some t ∧ t.column = c.name ∧
      ∀ r ∈ t.rows, r.time ∈ range → 0 < r.pin := by
  rw [applyPins_append] at hd
  obtain ⟨d₁, h₁, hd⟩ := bind_eq_ok.1 hd
  rw [applyPins_cons] at hd
  obtain ⟨d₂, h₂, _⟩ := bind_eq_ok.1 hd
  obtain ⟨tables, htables, _⟩ := applyPin_eq_ok h₂
  obtain ⟨t, _, ht, hcolumn, _⟩ := shiftTables_shift htables
  have hfunded := ((funds_append.1 h).2 d₁ h₁).1
  exact ⟨d₁, t, h₁, ht, hcolumn, hfunded rfl t ht⟩

/-! ### What pin statements read and change -/

/-- The data without the records and the watermark. -/
def StoreData.bare (d : StoreData) : StoreData := { d with views := .empty, lastRun := none }

theorem applyPin_bare (d : StoreData) (s : PinStatement) :
    d.bare.applyPin s = (d.applyPin s).map StoreData.bare :=
  applyPin_mapRest (fun _ => .empty) (fun _ => none) d s

theorem applyPins_bare (d : StoreData) (l : List PinStatement) :
    d.bare.applyPins l = (d.applyPins l).map StoreData.bare :=
  applyPins_mapRest (fun _ => .empty) (fun _ => none) d l

theorem funds_bare : d.bare.Funds l ↔ d.Funds l := by
  induction l generalizing d with
  | nil => exact Iff.rfl
  | cons s l ih =>
    have hs : d.bare.Funded s ↔ d.Funded s := by
      cases s with
      | shift c range add => exact Iff.rfl
      | reset name => exact Iff.rfl
    have hl : (∀ d₁, d.bare.applyPin s = .ok d₁ → d₁.Funds l) ↔
        ∀ d₁, d.applyPin s = .ok d₁ → d₁.Funds l := by
      rw [applyPin_bare]
      constructor
      · intro h d₁ h₁
        exact ih.1 (h d₁.bare (map_eq_ok.2 ⟨d₁, h₁, rfl⟩))
      · intro h d₁ h₁
        obtain ⟨d₂, h₂, rfl⟩ := map_eq_ok.1 h₁
        exact ih.2 (h d₂ h₂)
    exact and_congr hs hl

/-! ### Going down without looking -/

def Row.minPin : Int := -9223372036854775808

/-- One pin fewer, if the count can hold it. -/
def Row.down? (r : Row) : Option Row :=
  if Row.minPin < r.pin then some { r with pin := r.pin - 1 } else none

/-- One pin fewer on every row of a range, also on rows without pins. -/
def Table.down? (t : Table) (range : TimeRange) : Option Table := do
  let rows ← t.rows.mapM fun r => if r.time ∈ range then r.down? else some r
  some { t with rows }

namespace StoreData

/-- Carries out a pin statement as `applyPin` does, but goes down without looking. -/
def applyUnguarded (d : StoreData) : PinStatement → Except Abort StoreData
  | .shift c range false =>
    match d.table c "pin_batch" with
    | .error e => .error (.error e)
    | .ok t =>
      match t.down? range with
      | none => .error .overflow
      | some t' => .ok { d with
          tables := d.tables.modify c.table fun _ => t'
          pinLog := d.pinLog ++ [.shift c range false] }
  | s => d.applyPin s

end StoreData

theorem Row.down?_of_pos {r : Row} (h : 0 < r.pin) : r.down? = r.shift? false := by
  have hmin : Row.minPin < r.pin := Int.lt_trans (by decide) h
  simp only [Row.down?, Row.shift?, hmin, h, if_true, Bool.false_eq_true, if_false]

theorem Table.down?_of_pos {t : Table} {range : TimeRange}
    (h : ∀ r ∈ t.rows, r.time ∈ range → 0 < r.pin) : t.down? range = t.shift? range false := by
  have hrows : (t.rows.mapM fun r => if r.time ∈ range then r.down? else some r) =
      t.rows.mapM fun r => if r.time ∈ range then r.shift? false else some r := by
    refine mapM_congr ?_
    intro r hr
    by_cases hmem : r.time ∈ range
    · rw [if_pos hmem, if_pos hmem, Row.down?_of_pos (h r hr hmem)]
    · rw [if_neg hmem, if_neg hmem]
  unfold Table.down? Table.shift?
  rw [hrows]

theorem applyUnguarded_of_funded (h : d.Funded s) : d.applyUnguarded s = d.applyPin s := by
  cases s with
  | reset name => rfl
  | shift c range add =>
    cases add
    · simp only [StoreData.applyUnguarded, StoreData.applyPin, StoreData.shiftTables]
      cases htable : d.table c "pin_batch" with
      | error e => rfl
      | ok t =>
        simp only [Table.down?_of_pos (h rfl t (table_eq_ok.1 htable).1)]
        cases t.shift? range false with
        | none => rfl
        | some t' => rfl
    · rfl

/-- Statements that find their rows pinned do the same without the guard. -/
theorem applyUnguarded_of_funds (h : d.Funds l) :
    l.foldlM StoreData.applyUnguarded d = d.applyPins l := by
  induction l generalizing d with
  | nil => rfl
  | cons s l ih =>
    rw [applyPins_cons, List.foldlM_cons, applyUnguarded_of_funded h.1]
    cases hs : d.applyPin s with
    | error a => rfl
    | ok d₁ => exact ih (h.2 d₁ hs)

/-! ### Operations -/

theorem funds_of_forall (h : ∀ s ∈ l, ∀ d : StoreData, d.Funded s) : d.Funds l := by
  induction l generalizing d with
  | nil => trivial
  | cons s l ih =>
    exact ⟨h s List.mem_cons_self d, fun d' _ => ih fun s' hs' => h s' (List.mem_cons_of_mem s hs')⟩

theorem funds_resets (d : StoreData) (tables : List String) : d.Funds (tables.map .reset) := by
  refine funds_of_forall ?_
  intro s hs d
  obtain ⟨name, _, rfl⟩ := List.mem_map.1 hs
  trivial

/-- Operations that go down find their rows pinned, if they are no more than the pins. -/
theorem funds_downs {f : String → Instant → Nat} {ops : List PinOperation}
    (hdown : ∀ op ∈ ops, op.add = false) (hf : d.Pinned f)
    (hle : ∀ name t, d.tables.find? name = some t → ∀ x ∈ t.times,
      hitCount name x false ops ≤ f name x) :
    d.Funds (ops.map PinOperation.statement) := by
  induction ops generalizing d f with
  | nil => trivial
  | cons op ops ih =>
    have hop : op.add = false := hdown op List.mem_cons_self
    have hcount : ∀ name x, hitCount name x false (op :: ops) =
        hitCount name x false ops +
          if op.layer.column.table = name ∧ x ∈ op.range then 1 else 0 := by
      intro name x
      simp [hitCount, List.countP_cons, PinOperation.hits, RangeShift.hits, hop]
    refine ⟨?_, ?_⟩
    · -- a row that the first one reaches has at least the pin for this hit
      intro _ t ht r hr hmem
      have hx : r.time ∈ t.times := List.mem_map_of_mem hr
      have hrow := hle _ t ht r.time hx
      rw [hcount, if_pos ⟨rfl, hmem⟩] at hrow
      rw [hf _ t ht r hr]
      omega
    · -- it takes a pin exactly where the rest has one hit fewer to come
      intro d₁ h₁
      have hf₁ : d₁.Pinned fun name x =>
          if op.layer.column.table = name ∧ x ∈ op.range then f name x - 1 else f name x := by
        have hshift := StoreData.Counted.shift comparison_eq hf h₁
        simp only [hop, shiftedCount, Bool.false_eq_true, if_false] at hshift
        exact hshift
      refine ih (fun o ho => hdown o (List.mem_cons_of_mem op ho)) hf₁ ?_
      intro name t' ht' x hx
      obtain ⟨t, ht, _, htimes⟩ := times_of_skeleton_eq (skeleton_applyPin h₁) ht'
      rw [← htimes] at hx
      have hrow := hle name t ht x hx
      rw [hcount] at hrow
      split
      · rename_i hhit
        rw [if_pos hhit] at hrow
        omega
      · rename_i hhit
        rw [if_neg hhit] at hrow
        omega

/-- So do all operations, in an order that puts those down before those up. -/
theorem funds_operations {f : String → Instant → Nat} {ops : List PinOperation}
    (hsorted : ops = ops.filter (!·.add) ++ ops.filter (·.add)) (hf : d.Pinned f)
    (hle : ∀ name t, d.tables.find? name = some t → ∀ x ∈ t.times,
      hitCount name x false ops ≤ f name x) :
    d.Funds (ops.map PinOperation.statement) := by
  rw [hsorted, List.map_append, funds_append]
  constructor
  · refine funds_downs (by simp) hf ?_
    intro name t ht x hx
    rw [hitCount_filter_down]
    exact hle name t ht x hx
  · intro d₁ _
    refine funds_of_forall ?_
    intro s hs d
    obtain ⟨op, hop, rfl⟩ := List.mem_map.1 hs
    have hup : op.add = true := (List.mem_filter.1 hop).2
    intro hdown
    rw [hup] at hdown
    cases hdown

end PinLedger
