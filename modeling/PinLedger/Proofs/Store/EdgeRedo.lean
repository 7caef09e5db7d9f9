import PinLedger.Proofs.Dict
import PinLedger.Proofs.Reconcile.Transition
import PinLedger.Proofs.Store.Batches

/-!
# PinLedger.Proofs.Store.EdgeRedo

An edge delta on the rows of a table. A row is reached by one shift of the delta at most, and by one
exactly if the row lies in one of the two ranges only. So the delta does to the pins what taking the
old range down and putting the new range up does, as long as the old range is pinned.

* `Row.shifts?`, `Table.shifts?_eq` — shifts one after another, row by row
* `Workspace.Yields` — the tables that a batch leads to
* `edgeDelta_yields_redo` — the delta and the redo cannot be told apart
-/

namespace PinLedger

/-! ### Rows -/

/-- Shifts carried out on a row one after another, as far as they reach it. -/
def Row.shifts? (r : Row) (ds : List RangeShift) : Option Row :=
  ds.foldlM (fun r s => if r.time ∈ s.range then r.shift? s.add else some r) r

def Table.shifts? (t : Table) (ds : List RangeShift) : Option Table :=
  ds.foldlM (fun t s => t.shift? s.range s.add) t

variable {old new : TimeRange} {c : Column} {t : Table} {r : Row} {ds : List RangeShift}

theorem Row.shifts?_cons (r : Row) (s : RangeShift) (ds : List RangeShift) :
    r.shifts? (s :: ds) =
      (if r.time ∈ s.range then r.shift? s.add else some r) >>= fun r => r.shifts? ds := rfl

theorem Row.shifts?_of_not_mem (h : ∀ s ∈ ds, r.time ∉ s.range) : r.shifts? ds = some r := by
  induction ds with
  | nil => rfl
  | cons s ds ih =>
    rw [Row.shifts?_cons, if_neg (h s List.mem_cons_self)]
    exact ih fun s' hs' => h s' (List.mem_cons_of_mem s hs')

theorem RangeShift.mem_range_iff (x : Instant) (add : Bool) (s : RangeShift) :
    x ∈ s.range ↔ s.hits x add = true ∨ s.hits x (!add) = true := by
  unfold RangeShift.hits
  cases s.add
  · cases add
    · simp
    · simp
  · cases add
    · simp
    · simp

/-- A row that no shift reaches from below or from above is left alone. -/
theorem Row.shifts?_of_count_zero (add : Bool) (h : ds.countP (RangeShift.hits r.time add) = 0)
    (h' : ds.countP (RangeShift.hits r.time !add) = 0) : r.shifts? ds = some r := by
  refine Row.shifts?_of_not_mem fun s hs hmem => ?_
  rcases (RangeShift.mem_range_iff r.time add s).1 hmem with hhit | hhit
  · exact List.countP_eq_zero.1 h s hs hhit
  · exact List.countP_eq_zero.1 h' s hs hhit

/-- A row that one shift reaches is shifted once. -/
theorem Row.shifts?_of_count_one (add : Bool) (h : ds.countP (RangeShift.hits r.time add) = 1)
    (h' : ds.countP (RangeShift.hits r.time !add) = 0) : r.shifts? ds = r.shift? add := by
  induction ds with
  | nil => cases h
  | cons s ds ih =>
    rw [List.countP_cons] at h h'
    have hother : s.hits r.time (!add) = false := by
      cases hs : s.hits r.time (!add)
      · rfl
      · rw [hs, if_pos rfl] at h'
        cases h'
    have hrest : ds.countP (RangeShift.hits r.time !add) = 0 := by omega
    have hmem := RangeShift.mem_range_iff r.time add s
    rw [Row.shifts?_cons]
    cases hs : s.hits r.time add
    · have hout : r.time ∉ s.range := by simp [hmem, hs, hother]
      have hone : ds.countP (RangeShift.hits r.time add) = 1 := by simpa [hs] using h
      rw [if_neg hout]
      exact ih hone hrest
    · -- this is the one shift, and what comes after it does not reach the row
      have hin : r.time ∈ s.range := by simp [hmem, hs]
      have hadd : s.add = add := by
        unfold RangeShift.hits at hs
        exact beq_iff_eq.1 (Bool.and_eq_true_iff.1 hs).1
      have hzero : ds.countP (RangeShift.hits r.time add) = 0 := by simpa [hs] using h
      rw [if_pos hin, hadd]
      cases hr : r.shift? add with
      | none => rfl
      | some r' =>
        rw [← Row.shift?_time hr] at hzero hrest
        exact Row.shifts?_of_count_zero add hzero hrest

/-- What taking a range down and putting another one up does to a row. -/
def redoShifts (old new : TimeRange) : List RangeShift := [⟨old, false⟩, ⟨new, true⟩]

/-- A row that both ranges hold is back where it was. -/
theorem Row.shift?_down_up (hlow : 1 ≤ r.pin) (hhigh : r.pin ≤ Row.maxPin) :
    (r.shift? false >>= fun r' => r'.shift? true) = some r := by
  have hpos : 0 < r.pin := hlow
  have hlt : r.pin - 1 < Row.maxPin := by omega
  have hback : r.pin - 1 + 1 = r.pin := by omega
  simp [Row.shift?, hpos, hlt, hback]

theorem Row.shifts?_redo (old new : TimeRange)
    (hpin : r.time ∈ old → 1 ≤ r.pin ∧ r.pin ≤ Row.maxPin) :
    r.shifts? (redoShifts old new) =
      if r.time ∈ old then if r.time ∈ new then some r else r.shift? false
      else if r.time ∈ new then r.shift? true else some r := by
  rw [redoShifts, Row.shifts?_cons]
  by_cases ho : r.time ∈ old
  · rw [if_pos ho, if_pos ho]
    obtain ⟨hlow, hhigh⟩ := hpin ho
    have hdown := Row.shift?_down_up hlow hhigh
    cases hr : r.shift? false with
    | none =>
      rw [hr] at hdown
      cases hdown
    | some r' =>
      rw [hr] at hdown
      show (if r'.time ∈ new then r'.shift? true else some r') >>= some = _
      rw [Row.shift?_time hr]
      by_cases hn : r.time ∈ new
      · rw [if_pos hn, if_pos hn, Option.bind_eq_bind, Option.bind_fun_some]
        exact hdown
      · rw [if_neg hn, if_neg hn]
        rfl
  · rw [if_neg ho, if_neg ho]
    show (if r.time ∈ new then r.shift? true else some r) >>= some = _
    rw [Option.bind_eq_bind, Option.bind_fun_some]

/-- On a grid a delta does to a row of the old range, and to every other one, what the redo does. -/
theorem Row.shifts?_edgeDelta {P : Instant → Prop} (hP : Grid P) (hos : P old.start)
    (hoe : P old.stop) (hns : P new.start) (hne : P new.stop) (hr : P r.time)
    (hpin : r.time ∈ old → 1 ≤ r.pin ∧ r.pin ≤ Row.maxPin) (h : edgeDelta? old new = some ds) :
    r.shifts? ds = r.shifts? (redoShifts old new) := by
  obtain ⟨hup, hdown⟩ := count_edgeDelta? hP hos hoe hns hne hr h
  rw [Row.shifts?_redo old new hpin]
  by_cases ho : r.time ∈ old
  · by_cases hn : r.time ∈ new
    · simp only [ho, hn, not_true, and_false, if_false] at hup hdown
      rw [if_pos ho, if_pos hn]
      exact Row.shifts?_of_count_zero true hup hdown
    · simp only [ho, hn, not_true, not_false_eq_true, and_true, and_false, if_true, if_false]
        at hup hdown
      rw [if_pos ho, if_neg hn]
      exact Row.shifts?_of_count_one false hdown hup
  · by_cases hn : r.time ∈ new
    · simp only [ho, hn, not_true, not_false_eq_true, and_true, and_false, if_true, if_false]
        at hup hdown
      rw [if_neg ho, if_pos hn]
      exact Row.shifts?_of_count_one true hup hdown
    · simp only [ho, hn, false_and, if_false] at hup hdown
      rw [if_neg ho, if_neg hn]
      exact Row.shifts?_of_count_zero true hup hdown

theorem countP_mem_range (x : Instant) (ds : List RangeShift) :
    ds.countP (fun d => decide (x ∈ d.range)) =
      ds.countP (RangeShift.hits x true) + ds.countP (RangeShift.hits x false) := by
  induction ds with
  | nil => rfl
  | cons d ds ih =>
    rw [List.countP_cons, List.countP_cons, List.countP_cons, ih]
    cases hdir : d.add
    · simp [RangeShift.hits, hdir]
      omega
    · simp [RangeShift.hits, hdir]
      omega

/-- On a grid a delta reaches a time once if one range holds it and the other does not, and no other
time. -/
theorem count_reach_edgeDelta? {P : Instant → Prop} {x : Instant} (hP : Grid P) (hos : P old.start)
    (hoe : P old.stop) (hns : P new.start) (hne : P new.stop) (hx : P x)
    (h : edgeDelta? old new = some ds) :
    ds.countP (fun d => decide (x ∈ d.range)) = if x ∈ old ↔ x ∉ new then 1 else 0 := by
  obtain ⟨hup, hdown⟩ := count_edgeDelta? hP hos hoe hns hne hx h
  rw [countP_mem_range, hup, hdown]
  by_cases ho : x ∈ old
  · by_cases hn : x ∈ new
    · simp [ho, hn]
    · simp [ho, hn]
  · by_cases hn : x ∈ new
    · simp [ho, hn]
    · simp [ho, hn]

/-! ### Tables -/

/-- Shifts one after another do to a table what they do to each of its rows. -/
theorem Table.shifts?_eq (t : Table) (ds : List RangeShift) :
    t.shifts? ds = (t.rows.mapM (Row.shifts? · ds)).map fun rows => { t with rows } := by
  induction ds generalizing t with
  | nil =>
    have hrows : t.rows.mapM (Row.shifts? · []) = some t.rows := by
      have h := List.mapM_pure (m := Option) (l := t.rows) (f := id)
      rwa [List.map_id] at h
    rw [hrows]
    rfl
  | cons s ds ih =>
    have hcons : t.shifts? (s :: ds) = t.shift? s.range s.add >>= fun t => t.shifts? ds := rfl
    have hrows := mapM_bind_mapM
      (fun r : Row => if r.time ∈ s.range then r.shift? s.add else some r) (Row.shifts? · ds) t.rows
    rw [hcons]
    show _ = (t.rows.mapM fun r => (if r.time ∈ s.range then r.shift? s.add else some r) >>=
      (Row.shifts? · ds)).map _
    rw [← hrows]
    unfold Table.shift?
    cases t.rows.mapM fun r => if r.time ∈ s.range then r.shift? s.add else some r with
    | none => rfl
    | some rows => exact ih { t with rows }

theorem Table.shifts?_congr {ds' : List RangeShift}
    (h : ∀ r ∈ t.rows, r.shifts? ds = r.shifts? ds') : t.shifts? ds = t.shifts? ds' := by
  rw [Table.shifts?_eq, Table.shifts?_eq, mapM_congr h]

/-- A shift of a column as a statement. -/
def RangeShift.statement (c : Column) (s : RangeShift) : PinStatement := .shift c s.range s.add

/-- Shifts of a column that exists lead to its table with all of them carried out. -/
theorem applyPins_shifts {d : StoreData} (ht : d.tables.find? c.table = some t)
    (hcolumn : t.column = c.name) (ds : List RangeShift) :
    (d.applyPins (ds.map (·.statement c))).map (·.tables) =
      match t.shifts? ds with
      | none => .error .overflow
      | some t' => .ok (d.tables.modify c.table fun _ => t') := by
  induction ds generalizing d t with
  | nil => exact congrArg Except.ok (Dict.modify_of_find? ht).symm
  | cons s ds ih =>
    have hcons : t.shifts? (s :: ds) = t.shift? s.range s.add >>= fun t => t.shifts? ds := rfl
    rw [List.map_cons, applyPins_cons, hcons]
    cases hs : t.shift? s.range s.add with
    | none =>
      rw [RangeShift.statement, applyPin_shift ht hcolumn, hs]
      rfl
    | some t₁ =>
      rw [RangeShift.statement, applyPin_shift ht hcolumn, hs]
      have hfind : (d.tables.modify c.table fun _ => t₁).find? c.table = some t₁ := by simp [ht]
      -- the rest begins with the table as the first shift has left it
      have hrest := ih (d := { d with
        tables := d.tables.modify c.table fun _ => t₁
        pinLog := d.pinLog ++ [s.statement c] }) hfind
        ((Table.times_of_shift? hs).1.trans hcolumn)
      simp only [Dict.modify_modify] at hrest
      exact hrest

/-! ### Batches -/

/-- The batch can be carried out, and leads to these tables. -/
def Workspace.Yields (s : Workspace) (batch : List PinStatement) (tables : Dict String Table) :
    Prop :=
  ∃ n s', (Work.executePins batch).exec s = (.ok n, s') ∧ s'.data.tables = tables

/-- What a batch leads to, after it has met no told failure. -/
theorem Workspace.yields_iff {s : Workspace} {batch : List PinStatement}
    {tables : Dict String Table} :
    s.Yields batch tables ↔
      (∃ s₁, Work.checkFault.exec s = (.ok (), s₁)) ∧
        (s.data.applyPins batch).map (·.tables) = .ok tables := by
  constructor
  · rintro ⟨n, s', h, rfl⟩
    obtain ⟨_, s₁, hcheck, h⟩ := Work.exec_bind_ok h
    obtain ⟨_, s₂, hbatch, h⟩ := Work.exec_bind_ok h
    cases h
    obtain ⟨happly, _⟩ := Work.applyPins_of_forM hbatch
    rw [Work.of_exec_checkFault hcheck] at happly
    exact ⟨⟨s₁, hcheck⟩, map_eq_ok.2 ⟨_, happly, rfl⟩⟩
  · rintro ⟨⟨s₁, hcheck⟩, h⟩
    obtain ⟨d, happly, rfl⟩ := map_eq_ok.1 h
    have hdata : s₁.data.applyPins batch = .ok d := by
      rw [Work.of_exec_checkFault hcheck]
      exact happly
    refine ⟨batch.length, { s₁ with data := d }, ?_, rfl⟩
    unfold Work.executePins
    rw [Work.exec_bind_of_ok hcheck, Work.exec_bind_of_ok (Work.exec_forM_executePin_ok hdata)]
    rfl

/-- **An edge delta is the redo of a pinned range.** The bounds of the two ranges and the times of
the rows lie on a grid, and the rows of the old range are pinned, with counts of 64 bits. Then no
edge leaves the calendar, carrying out the delta leads to the same tables as taking the old range
down and putting the new one up, and the delta reaches a row, and that once, exactly if one of the
ranges holds it and the other does not. -/
theorem edgeDelta_yields_redo {s : Workspace}
    (hgrid : Grid fun x => x ∈ [old.start, old.stop, new.start, new.stop] ∨ x ∈ t.times)
    (ht : s.data.tables.find? c.table = some t) (hcolumn : t.column = c.name)
    (hpins : ∀ r ∈ t.rows, r.time ∈ old → 1 ≤ r.pin ∧ r.pin ≤ Row.maxPin) :
    ∃ ds, edgeDelta? old new = some ds ∧
      (∀ tables, s.Yields (ds.map (·.statement c)) tables ↔
        s.Yields [.shift c old false, .shift c new true] tables) ∧
      ∀ r ∈ t.rows,
        ((∃ d ∈ ds, r.time ∈ d.range) ↔ (r.time ∈ old ↔ r.time ∉ new)) ∧
          ds.countP (fun d => decide (r.time ∈ d.range)) ≤ 1 := by
  have hos : old.start ∈ [old.start, old.stop, new.start, new.stop] := by simp
  have hoe : old.stop ∈ [old.start, old.stop, new.start, new.stop] := by simp
  have hns : new.start ∈ [old.start, old.stop, new.start, new.stop] := by simp
  have hne : new.stop ∈ [old.start, old.stop, new.start, new.stop] := by simp
  obtain ⟨ds, hds⟩ := exists_edgeDelta? hgrid (.inl hos) (.inl hoe) (.inl hns) (.inl hne)
  refine ⟨ds, hds, ?_, ?_⟩
  · intro tables
    have hsame : t.shifts? ds = t.shifts? (redoShifts old new) := by
      refine Table.shifts?_congr fun r hr => ?_
      have htime : r.time ∈ t.times := List.mem_map_of_mem hr
      exact Row.shifts?_edgeDelta hgrid (.inl hos) (.inl hoe) (.inl hns) (.inl hne) (.inr htime)
        (hpins r hr) hds
    have hdelta := applyPins_shifts ht hcolumn ds
    have hredo := applyPins_shifts ht hcolumn (redoShifts old new)
    rw [hsame, ← hredo] at hdelta
    rw [Workspace.yields_iff, Workspace.yields_iff, hdelta]
    exact Iff.rfl
  · intro r hr
    have htime : r.time ∈ t.times := List.mem_map_of_mem hr
    have hcount := count_reach_edgeDelta? hgrid (.inl hos) (.inl hoe) (.inl hns) (.inl hne)
      (.inr htime) hds
    have hpos := List.countP_pos_iff (p := fun d : RangeShift => decide (r.time ∈ d.range)) (l := ds)
    simp only [decide_eq_true_eq] at hpos
    rw [← hpos, hcount]
    split
    · rename_i hone
      simp [hone]
    · rename_i hone
      simp [hone]

/-! A range that drops its first third and grows at its end, on three rows. -/

def dropped : TimeRange := .between (pastThree 0) (pastThree 60)

def grown : TimeRange := .between (pastThree 20) (pastThree 80)

def thirds : Table := ⟨"time", [⟨pastThree 10, 1⟩, ⟨pastThree 30, 2⟩, ⟨pastThree 70, 0⟩]⟩

def benchOf (t : Table) : Workspace :=
  .start { tables := .ofList [("obs", t)] } {} 4 4

theorem edgeDelta_yields_redo_thirds :
    ∃ ds, edgeDelta? dropped grown = some ds ∧
      (benchOf thirds).Yields (ds.map (·.statement ⟨"obs", "time"⟩)) (.ofList [("obs", ⟨"time",
        [⟨pastThree 10, 0⟩, ⟨pastThree 30, 2⟩, ⟨pastThree 70, 1⟩]⟩)]) := by
  have hlist : Grid (· ∈ [pastThree 0, pastThree 60, pastThree 20, pastThree 80, pastThree 10,
      pastThree 30, pastThree 70]) := grid_of_list (by decide) (by decide)
  have hgrid : Grid fun x => x ∈ [dropped.start, dropped.stop, grown.start, grown.stop] ∨
      x ∈ thirds.times := by
    have hmem : ∀ x, x ∈ [dropped.start, dropped.stop, grown.start, grown.stop] ∨
        x ∈ thirds.times → x ∈ [pastThree 0, pastThree 60, pastThree 20, pastThree 80,
          pastThree 10, pastThree 30, pastThree 70] := by
      intro x hx
      exact List.mem_append.2 hx
    exact ⟨fun a ha => hlist.leapFree a (hmem a ha),
      fun a b ha hb => hlist.apart a b (hmem a ha) (hmem b hb)⟩
  obtain ⟨ds, hds, hyields, _⟩ := edgeDelta_yields_redo (s := benchOf thirds) (t := thirds)
    (c := ⟨"obs", "time"⟩) hgrid rfl rfl (by decide)
  refine ⟨ds, hds, (hyields _).2 ?_⟩
  exact ⟨2, _, rfl, by decide +kernel⟩

end PinLedger
