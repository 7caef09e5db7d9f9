import PinLedger.Proofs.Store.Rows

/-!
# PinLedger.Proofs.Store.Pins

What pin statements do to the counts of the rows. The counts of a table are compared with a function
of the time: a statement shifts both, and going down stops at zero as the subtraction of natural
numbers does.

* `StoreData.applyPins` — statements carried out one after another
* `skeleton_applyPin` — no statement changes what planning sees
* `Comparison` — a comparison that survives a shift of both sides
* `StoreData.Counted`, `StoreData.Pinned` — the counts compare so, or equal, with a function of table
  and time
* `StoreData.Counted.operations` — the operations of a plan, those down before those up
-/

namespace PinLedger

namespace StoreData

/-- Carries out pin statements, up to the first that fails. -/
def applyPins (d : StoreData) (l : List PinStatement) : Except Abort StoreData :=
  l.foldlM applyPin d

/-- Every row of every table has a count that compares by `R` with what `f` gives for the table and
its time. -/
def Counted (R : Int → Nat → Prop) (d : StoreData) (f : String → Instant → Nat) : Prop :=
  ∀ name t, d.tables.find? name = some t → ∀ r ∈ t.rows, R r.pin (f name r.time)

/-- Every row of every table has the count that `f` gives for the table and its time. -/
def Pinned (d : StoreData) (f : String → Instant → Nat) : Prop :=
  ∀ name t, d.tables.find? name = some t → ∀ r ∈ t.rows, r.pin = f name r.time

end StoreData

variable {d d' : StoreData} {f : String → Instant → Nat} {R : Int → Nat → Prop}

theorem applyPins_cons (d : StoreData) (s : PinStatement) (l : List PinStatement) :
    d.applyPins (s :: l) = d.applyPin s >>= fun d => d.applyPins l := rfl

theorem applyPins_append (d : StoreData) (l l' : List PinStatement) :
    d.applyPins (l ++ l') = d.applyPins l >>= fun d => d.applyPins l' :=
  List.foldlM_append

/-! ### One statement -/

theorem Row.shift?_time {r r' : Row} {add : Bool} (h : r.shift? add = some r') :
    r'.time = r.time := by
  unfold Row.shift? at h
  cases add
  · simp only [Bool.false_eq_true, if_false] at h
    split at h
    · cases h; rfl
    · cases h; rfl
  · simp only [if_true] at h
    split at h
    · cases h; rfl
    · cases h

/-- What a statement makes of a count. -/
def shiftedCount (add : Bool) (n : Nat) : Nat := if add then n + 1 else n - 1

/-- A comparison of counts with numbers that survives a shift of both. -/
structure Comparison (R : Int → Nat → Prop) : Prop where
  zero : R 0 0
  up : ∀ {p n}, R p n → R (p + 1) (n + 1)
  down : ∀ {p n}, R p n → R (if 0 < p then p - 1 else p) (n - 1)

/-- Equality is one. -/
theorem comparison_eq : Comparison fun p n => p = n where
  zero := rfl
  up := by
    intro p n h
    omega
  down := by
    intro p n h
    split
    · omega
    · omega

/-- So is being at most the number. -/
theorem comparison_le : Comparison fun p n => 0 ≤ p ∧ p ≤ n where
  zero := by omega
  up := by
    intro p n h
    omega
  down := by
    intro p n h
    split
    · omega
    · omega

theorem Row.shift?_pin (hR : Comparison R) {r r' : Row} {add : Bool} {n : Nat} (hr : R r.pin n)
    (h : r.shift? add = some r') : R r'.pin (shiftedCount add n) := by
  unfold Row.shift? at h
  cases add
  · simp only [Bool.false_eq_true, if_false] at h
    have hdown := hR.down hr
    by_cases hpos : 0 < r.pin
    · rw [if_pos hpos] at h hdown
      cases h
      exact hdown
    · rw [if_neg hpos] at h hdown
      cases h
      exact hdown
  · simp only [if_true] at h
    split at h
    · cases h
      exact hR.up hr
    · cases h

theorem Table.times_of_shift? {t t' : Table} {range : TimeRange} {add : Bool}
    (h : t.shift? range add = some t') : t'.column = t.column ∧ t'.times = t.times := by
  unfold Table.shift? at h
  obtain ⟨rows, hrows, h⟩ := Option.bind_eq_some_iff.1 h
  cases h
  refine ⟨rfl, map_of_mapM ?_ hrows⟩
  intro r r' hr
  split at hr
  · exact Row.shift?_time hr
  · cases hr; rfl

theorem Table.pin_of_shift? (hR : Comparison R) {t t' : Table} {range : TimeRange} {add : Bool}
    {g : Instant → Nat} (hg : ∀ r ∈ t.rows, R r.pin (g r.time))
    (h : t.shift? range add = some t') :
    ∀ r ∈ t'.rows,
      R r.pin (if r.time ∈ range then shiftedCount add (g r.time) else g r.time) := by
  unfold Table.shift? at h
  obtain ⟨rows, hrows, h⟩ := Option.bind_eq_some_iff.1 h
  cases h
  intro r' hr'
  obtain ⟨r, hr, hshift⟩ := mem_of_mapM hrows r' hr'
  by_cases hmem : r.time ∈ range
  · rw [if_pos hmem] at hshift
    rw [Row.shift?_time hshift, if_pos hmem]
    exact Row.shift?_pin hR (hg r hr) hshift
  · rw [if_neg hmem] at hshift
    cases hshift
    rw [if_neg hmem]
    exact hg _ hr

/-- A shift that is carried out found its table, with its column. -/
theorem shiftTables_shift {c : Column} {range : TimeRange} {add : Bool} {tables : Dict String Table}
    (h : d.shiftTables (.shift c range add) = .ok tables) :
    ∃ t t', d.tables.find? c.table = some t ∧ t.column = c.name ∧
      t.shift? range add = some t' ∧ tables = d.tables.modify c.table fun _ => t' := by
  unfold StoreData.shiftTables at h
  cases ht : d.table c "pin_batch" with
  | error e =>
    simp only [ht] at h
    cases h
  | ok t =>
    obtain ⟨hfind, hcolumn⟩ := table_eq_ok.1 ht
    simp only [ht] at h
    cases hs : t.shift? range add with
    | none =>
      rw [hs] at h
      cases h
    | some t' =>
      rw [hs] at h
      cases h
      exact ⟨t, t', hfind, hcolumn, hs, rfl⟩

theorem shiftTables_reset {name : String} {tables : Dict String Table}
    (h : d.shiftTables (.reset name) = .ok tables) :
    d.tables.contains name = true ∧ tables = d.tables.modify name Table.clear := by
  unfold StoreData.shiftTables at h
  cases hc : d.tables.contains name
  · simp [hc] at h
  · simp only [hc, if_true] at h
    cases h
    exact ⟨rfl, rfl⟩

theorem applyPin_eq_ok {s : PinStatement} (h : d.applyPin s = .ok d') :
    ∃ tables, d.shiftTables s = .ok tables ∧ d' = { d with tables, pinLog := d.pinLog ++ [s] } := by
  unfold StoreData.applyPin at h
  cases hs : d.shiftTables s with
  | error a =>
    rw [hs] at h
    cases h
  | ok tables =>
    rw [hs] at h
    cases h
    exact ⟨tables, rfl, rfl⟩

/-- What a shift of a column that exists does is up to its rows. -/
theorem applyPin_shift {c : Column} {t : Table} (ht : d.tables.find? c.table = some t)
    (hcolumn : t.column = c.name) (range : TimeRange) (add : Bool) :
    d.applyPin (.shift c range add) =
      match t.shift? range add with
      | none => .error .overflow
      | some t' => .ok { d with
          tables := d.tables.modify c.table fun _ => t'
          pinLog := d.pinLog ++ [.shift c range add] } := by
  simp only [StoreData.applyPin, StoreData.shiftTables, table_eq_ok.2 ⟨ht, hcolumn⟩]
  cases t.shift? range add with
  | none => rfl
  | some t' => rfl

/-! ### What planning sees -/

theorem Table.times_clear (t : Table) : t.clear.times = t.times := by
  unfold Table.clear Table.times
  rw [List.map_map]
  rfl

/-- No pin statement changes what planning sees. -/
theorem skeleton_applyPin {s : PinStatement} (h : d.applyPin s = .ok d') :
    d'.skeleton = d.skeleton := by
  obtain ⟨tables, htables, rfl⟩ := applyPin_eq_ok h
  funext name
  unfold StoreData.skeleton
  cases s with
  | shift c range add =>
    obtain ⟨t, t', hfind, _, hshift, rfl⟩ := shiftTables_shift htables
    obtain ⟨hcolumn, htimes⟩ := Table.times_of_shift? hshift
    by_cases hname : name = c.table
    · subst hname
      simp [hfind, hcolumn, htimes]
    · simp [hname]
  | reset table =>
    obtain ⟨_, rfl⟩ := shiftTables_reset htables
    by_cases hname : name = table
    · subst hname
      simp only [Dict.find?_modify, if_true, Option.map_map]
      congr 1
      funext t
      exact Prod.ext rfl (Table.times_clear t)
    · simp [hname]

theorem views_applyPin {s : PinStatement} (h : d.applyPin s = .ok d') : d'.views = d.views := by
  obtain ⟨tables, _, rfl⟩ := applyPin_eq_ok h
  rfl

theorem lastRun_applyPin {s : PinStatement} (h : d.applyPin s = .ok d') :
    d'.lastRun = d.lastRun := by
  obtain ⟨tables, _, rfl⟩ := applyPin_eq_ok h
  rfl

/-- What no pin statement changes, a list of them does not change. -/
theorem eq_of_applyPins {α : Type} {f : StoreData → α} {l : List PinStatement}
    (hf : ∀ {d d' : StoreData} {s : PinStatement}, d.applyPin s = .ok d' → f d' = f d)
    (h : d.applyPins l = .ok d') : f d' = f d := by
  induction l generalizing d with
  | nil =>
    cases h
    rfl
  | cons s l ih =>
    rw [applyPins_cons] at h
    obtain ⟨d₁, h₁, h⟩ := bind_eq_ok.1 h
    rw [ih h, hf h₁]

theorem skeleton_applyPins {l : List PinStatement} (h : d.applyPins l = .ok d') :
    d'.skeleton = d.skeleton :=
  eq_of_applyPins skeleton_applyPin h

theorem views_applyPins {l : List PinStatement} (h : d.applyPins l = .ok d') :
    d'.views = d.views :=
  eq_of_applyPins views_applyPin h

theorem lastRun_applyPins {l : List PinStatement} (h : d.applyPins l = .ok d') :
    d'.lastRun = d.lastRun :=
  eq_of_applyPins lastRun_applyPin h

theorem pinLog_applyPins {l : List PinStatement} (h : d.applyPins l = .ok d') :
    d'.pinLog = d.pinLog ++ l := by
  induction l generalizing d with
  | nil =>
    cases h
    exact (List.append_nil _).symm
  | cons s l ih =>
    rw [applyPins_cons] at h
    obtain ⟨d₁, hs, h⟩ := bind_eq_ok.1 h
    obtain ⟨tables, _, rfl⟩ := applyPin_eq_ok hs
    rw [ih h, List.append_assoc]
    rfl

/-- The data with the records and the watermark changed. -/
def StoreData.mapRest (views : ViewTable → ViewTable) (lastRun : Option Instant → Option Instant)
    (d : StoreData) : StoreData :=
  { d with views := views d.views, lastRun := lastRun d.lastRun }

section MapRest

variable (views : ViewTable → ViewTable) (lastRun : Option Instant → Option Instant)

/-- Pin statements have nothing to do with the records and the watermark. -/
theorem applyPin_mapRest (d : StoreData) (s : PinStatement) :
    (d.mapRest views lastRun).applyPin s = (d.applyPin s).map (·.mapRest views lastRun) := by
  have h : (d.mapRest views lastRun).shiftTables s = d.shiftTables s := by
    cases s with
    | shift c range add => rfl
    | reset name => rfl
  unfold StoreData.applyPin
  rw [h]
  cases d.shiftTables s with
  | error a => rfl
  | ok tables => rfl

theorem applyPins_mapRest (d : StoreData) (l : List PinStatement) :
    (d.mapRest views lastRun).applyPins l = (d.applyPins l).map (·.mapRest views lastRun) := by
  induction l generalizing d with
  | nil => rfl
  | cons s l ih =>
    rw [applyPins_cons, applyPins_cons, applyPin_mapRest]
    cases d.applyPin s with
    | error a => rfl
    | ok d₁ => exact ih d₁

end MapRest

theorem applyPins_withViews (d : StoreData) (views : ViewTable) (l : List PinStatement) :
    ({ d with views }).applyPins l = (d.applyPins l).map fun d' => { d' with views } :=
  applyPins_mapRest (fun _ => views) id d l

/-! ### Counts -/

namespace StoreData

theorem Counted.shift (hR : Comparison R) {c : Column} {range : TimeRange} {add : Bool}
    (hf : d.Counted R f) (h : d.applyPin (.shift c range add) = .ok d') :
    d'.Counted R fun name x =>
      if c.table = name ∧ x ∈ range then shiftedCount add (f name x) else f name x := by
  obtain ⟨tables, htables, rfl⟩ := applyPin_eq_ok h
  obtain ⟨t, t', hfind, _, hshift, rfl⟩ := shiftTables_shift htables
  intro name u hu r hr
  by_cases hname : name = c.table
  · subst hname
    simp only [Dict.find?_modify, if_true, hfind, Option.map_some, Option.some.injEq] at hu
    subst hu
    simpa using Table.pin_of_shift? hR (hf _ t hfind) hshift r hr
  · simp only [Dict.find?_modify, hname, if_false] at hu
    have hne : ¬ (c.table = name ∧ r.time ∈ range) := fun hc => hname hc.1.symm
    simpa only [hne, if_false] using hf name u hu r hr

theorem Counted.reset (hR : Comparison R) {table : String} (hf : d.Counted R f)
    (h : d.applyPin (.reset table) = .ok d') :
    d'.Counted R fun name x => if name = table then 0 else f name x := by
  obtain ⟨tables, htables, rfl⟩ := applyPin_eq_ok h
  obtain ⟨_, rfl⟩ := shiftTables_reset htables
  intro name u hu r hr
  by_cases hname : name = table
  · simp only [Dict.find?_modify, hname, if_true] at hu
    obtain ⟨t, _, rfl⟩ := Option.map_eq_some_iff.1 hu
    obtain ⟨r', _, rfl⟩ := List.mem_map.1 hr
    simp only [hname, if_true]
    exact hR.zero
  · simp only [Dict.find?_modify, hname, if_false] at hu
    simp only [hname, if_false]
    exact hf name u hu r hr

/-- Tables taken to zero one after another. -/
theorem Counted.resets (hR : Comparison R) {tables : List String} (hf : d.Counted R f)
    (h : d.applyPins (tables.map .reset) = .ok d') :
    d'.Counted R fun name x => if name ∈ tables then 0 else f name x := by
  induction tables generalizing d f with
  | nil =>
    cases h
    intro name t ht r hr
    simp only [List.not_mem_nil, if_false]
    exact hf name t ht r hr
  | cons table tables ih =>
    rw [List.map_cons, applyPins_cons] at h
    obtain ⟨d₁, h₁, h⟩ := bind_eq_ok.1 h
    intro name t ht r hr
    have hrow := ih (hf.reset hR h₁) h name t ht r hr
    by_cases hname : name = table
    · simpa [hname] using hrow
    · simpa [hname] using hrow

/-- The operations of one direction, all carried out. -/
theorem Counted.operations_of_add (hR : Comparison R) (add : Bool) {ops : List PinOperation}
    (hadd : ∀ op ∈ ops, op.add = add) (hf : d.Counted R f)
    (h : d.applyPins (ops.map PinOperation.statement) = .ok d') :
    d'.Counted R fun name x =>
      if add then f name x + hitCount name x add ops else f name x - hitCount name x add ops := by
  induction ops generalizing d f with
  | nil =>
    cases h
    intro name t ht r hr
    cases add
    · exact hf name t ht r hr
    · exact hf name t ht r hr
  | cons op ops ih =>
    rw [List.map_cons, applyPins_cons] at h
    obtain ⟨d₁, h₁, h⟩ := bind_eq_ok.1 h
    have hop : op.add = add := hadd op List.mem_cons_self
    have hrest := ih (fun o ho => hadd o (List.mem_cons_of_mem op ho)) (hf.shift hR h₁) h
    intro name t ht r hr
    refine (congrArg (R r.pin) ?_).mp (hrest name t ht r hr)
    simp only [hitCount, List.countP_cons, hop]
    by_cases hhit : op.layer.column.table = name ∧ r.time ∈ op.range
    · have hb : op.hits name r.time add = true := by
        simp [PinOperation.hits, RangeShift.hits, hop, hhit]
      cases add
      · simp only [hhit, hb, shiftedCount, and_self, if_true, Bool.false_eq_true, if_false]
        omega
      · simp only [hhit, hb, shiftedCount, and_self, if_true]
        omega
    · have hb : op.hits name r.time add = false := by
        simpa [PinOperation.hits, RangeShift.hits, hop] using hhit
      simp only [hhit, hb, if_false, Bool.false_eq_true, Nat.add_zero]

end StoreData

/-- A table after statements had the same times before. -/
theorem times_of_skeleton_eq {name : String} {t' : Table} (h : d'.skeleton = d.skeleton)
    (ht' : d'.tables.find? name = some t') :
    ∃ t, d.tables.find? name = some t ∧ t.column = t'.column ∧ t.times = t'.times := by
  have hname := congrFun h name
  unfold StoreData.skeleton at hname
  rw [ht'] at hname
  obtain ⟨t, ht, heq⟩ := Option.map_eq_some_iff.1 hname.symm
  obtain ⟨hcolumn, htimes⟩ := Prod.mk.inj heq
  exact ⟨t, ht, hcolumn, htimes⟩

theorem hitCount_filter_down (name : String) (x : Instant) (ops : List PinOperation) :
    hitCount name x false (ops.filter (!·.add)) = hitCount name x false ops := by
  unfold hitCount
  rw [List.countP_filter]
  congr 1
  funext op
  cases h : op.add
  · simp
  · simp [PinOperation.hits, RangeShift.hits, h]

theorem hitCount_filter_up (name : String) (x : Instant) (ops : List PinOperation) :
    hitCount name x true (ops.filter (·.add)) = hitCount name x true ops := by
  unfold hitCount
  rw [List.countP_filter]
  congr 1
  funext op
  cases h : op.add
  · simp [PinOperation.hits, RangeShift.hits, h]
  · simp

/-- Operations in an order that puts those down before those up, all carried out. -/
theorem StoreData.Counted.operations (hR : Comparison R) {ops : List PinOperation}
    {f' : String → Instant → Nat} (hf : d.Counted R f)
    (hsorted : ops = ops.filter (!·.add) ++ ops.filter (·.add))
    (h : d.applyPins (ops.map PinOperation.statement) = .ok d')
    (hf' : ∀ name t, d.tables.find? name = some t → ∀ x ∈ t.times,
      f' name x = f name x - hitCount name x false ops + hitCount name x true ops) :
    d'.Counted R f' := by
  have hskeleton := skeleton_applyPins h
  rw [hsorted, List.map_append, applyPins_append] at h
  obtain ⟨d₁, h₁, h⟩ := bind_eq_ok.1 h
  have hdown := hf.operations_of_add hR false (by simp) h₁
  have hup := hdown.operations_of_add hR true (by simp) h
  intro name t' ht' r hr
  obtain ⟨t, ht, _, htimes⟩ := times_of_skeleton_eq hskeleton ht'
  have hx : r.time ∈ t.times := htimes ▸ List.mem_map_of_mem hr
  rw [hf' name t ht r.time hx]
  simpa only [hitCount_filter_down, hitCount_filter_up, if_true, Bool.false_eq_true, if_false]
    using hup name t' ht' r hr

end PinLedger
