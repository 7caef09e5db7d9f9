import PinLedger.Proofs.Store.Batches
import PinLedger.Statement.Chunk

/-!
# PinLedger.Proofs.Statement.Chunk

The chunks of a batch. An insert chunk is carried out as one command: its rows are put into the
table at once, which a store refuses if two of them have one id. Carried out like that the chunks of
a batch do to the records what the batch does statement by statement.

* `ViewTable.upsert?`, `find?_upsert` — rows put into a table at once
* `executeChunks?` — chunks carried out in their order
* `ViewChunk.Full` — an insert chunk that takes in all it can
* `coalesce_preserves_batch` — the chunks of a batch
-/

namespace PinLedger

/-! ### Rows put into a table at once -/

theorem find?_id_eq_some_iff {l : List ViewRecord} (h : (l.map (·.id)).Nodup) {id : Int}
    {r : ViewRecord} : l.find? (fun s => s.id = id) = some r ↔ r ∈ l ∧ r.id = id := by
  constructor
  · intro hr
    exact ⟨List.mem_of_find?_eq_some hr, by simpa using List.find?_some hr⟩
  · rintro ⟨hr, rfl⟩
    induction l with
    | nil => cases hr
    | cons s l ih =>
      obtain ⟨hs, hl⟩ := List.nodup_cons.1 h
      rcases List.mem_cons.1 hr with rfl | hr
      · exact List.find?_cons_of_pos (by simp)
      · have hne : s.id ≠ r.id := fun heq => hs (List.mem_map.2 ⟨r, hr, heq.symm⟩)
        rw [List.find?_cons_of_neg (by simp [hne])]
        exact ih hl hr

namespace ViewTable

theorem nodup_ids (t : ViewTable) : (t.toList.map (·.id)).Nodup := by
  rw [List.Nodup, List.pairwise_map]
  exact t.increasing.imp fun h => Int.ne_of_lt h

/-- The rows and the records of all other ids, in the order of the ids. -/
def overlaid (t : ViewTable) (rows : List ViewRecord) : List ViewRecord :=
  (rows ++ t.toList.filter fun s => s.id ∉ rows.map (·.id)).mergeSort fun a b => a.id ≤ b.id

theorem mem_overlaid {t : ViewTable} {rows : List ViewRecord} {r : ViewRecord} :
    r ∈ t.overlaid rows ↔ r ∈ rows ∨ r ∈ t.toList ∧ r.id ∉ rows.map (·.id) := by
  unfold overlaid
  rw [List.mem_mergeSort, List.mem_append, List.mem_filter, decide_eq_true_iff]

theorem increasing_overlaid (t : ViewTable) {rows : List ViewRecord}
    (h : (rows.map (·.id)).Nodup) : (t.overlaid rows).Pairwise fun a b => a.id < b.id := by
  have hnodup : ((t.overlaid rows).map (·.id)).Nodup := by
    refine ((List.mergeSort_perm _ _).map _).nodup_iff.2 ?_
    rw [List.map_append, List.nodup_append]
    refine ⟨h, (t.nodup_ids).sublist (List.filter_sublist.map _), ?_⟩
    rintro id hid _ hother rfl
    obtain ⟨s, hs, rfl⟩ := List.mem_map.1 hother
    obtain ⟨_, hnot⟩ := List.mem_filter.1 hs
    exact of_decide_eq_true hnot hid
  have hsorted : (t.overlaid rows).Pairwise fun a b => decide (a.id ≤ b.id) = true := by
    refine List.pairwise_mergeSort ?_ ?_ _
    · intro a b c hab hbc
      rw [decide_eq_true_iff] at *
      omega
    · intro a b
      rw [Bool.or_eq_true, decide_eq_true_iff, decide_eq_true_iff]
      omega
  rw [List.Nodup, List.pairwise_map] at hnodup
  refine (hsorted.and hnodup).imp ?_
  rintro a b ⟨hle, hne⟩
  have hle := of_decide_eq_true hle
  omega

/-- Rows put into a table at once, each in place of the record of its id if there is one. Two rows
of one id are refused. -/
def upsert? (t : ViewTable) (rows : List ViewRecord) : Option ViewTable :=
  if h : (rows.map (·.id)).Nodup then some ⟨t.overlaid rows, t.increasing_overlaid h⟩ else none

theorem find?_upsert {t t' : ViewTable} {rows : List ViewRecord} (h : t.upsert? rows = some t')
    (id : Int) : t'.find? id = (rows.find? fun r => r.id = id).or (t.find? id) := by
  unfold upsert? at h
  split at h
  case isFalse => cases h
  case isTrue hnodup =>
    cases h
    apply Option.ext
    intro r
    have hother : rows.find? (fun r => r.id = id) = none ↔ id ∉ rows.map (·.id) := by
      simp [List.find?_eq_none]
    rw [Option.or_eq_some_iff, find?_id_eq_some_iff hnodup, hother]
    unfold find?
    rw [find?_id_eq_some_iff (nodup_ids _), find?_id_eq_some_iff t.nodup_ids, mem_overlaid]
    constructor
    · rintro ⟨hr | ⟨hr, hnot⟩, rfl⟩
      · exact .inl ⟨hr, rfl⟩
      · exact .inr ⟨hnot, hr, rfl⟩
    · rintro (⟨hr, rfl⟩ | ⟨hnot, hr, rfl⟩)
      · exact ⟨.inl hr, rfl⟩
      · exact ⟨.inr ⟨hr, hnot⟩, rfl⟩

/-- Rows put into a table one after another, none of which replaces another one. -/
theorem find?_foldl_put {rows : List ViewRecord} (h : (rows.map (·.id)).Nodup) (t : ViewTable)
    (id : Int) :
    (rows.foldl put t).find? id = (rows.find? fun r => r.id = id).or (t.find? id) := by
  induction rows generalizing t with
  | nil => rfl
  | cons r rows ih =>
    obtain ⟨hr, hrows⟩ := List.nodup_cons.1 h
    rw [List.foldl_cons, ih hrows, find?_put]
    by_cases hid : r.id = id
    · have hnone : rows.find? (fun s => s.id = id) = none := by
        rw [List.find?_eq_none]
        intro s hs heq
        have hsame : s.id = r.id := (of_decide_eq_true heq).trans hid.symm
        exact hr (List.mem_map.2 ⟨s, hs, hsame⟩)
      rw [if_pos hid, hnone, List.find?_cons_of_pos (by simp [hid])]
      rfl
    · rw [if_neg hid, List.find?_cons_of_neg (by simp [hid])]

/-- Rows of distinct ids may as well be put into a table one after another. -/
theorem upsert?_eq_foldl {rows : List ViewRecord} (h : (rows.map (·.id)).Nodup) (t : ViewTable) :
    t.upsert? rows = some (rows.foldl put t) := by
  obtain ⟨t', ht'⟩ : ∃ t', t.upsert? rows = some t' := ⟨_, dif_pos h⟩
  rw [ht']
  congr 1
  apply eq_of_find?
  intro id
  rw [find?_upsert ht', find?_foldl_put h]

end ViewTable

/-! ### Chunks carried out -/

/-- A chunk carried out as one command, and how many records it touched. -/
def ViewChunk.execute? (t : ViewTable) : ViewChunk → Option (ViewTable × Nat)
  | .insert rows => (t.upsert? rows).map fun t' => (t', rows.length)
  | .update r => some (t.apply (.update r), t.touched (.update r))
  | .delete id => some (t.apply (.delete id), t.touched (.delete id))

/-- Chunks carried out one after another, and how many records they touched. -/
def executeChunks? (t : ViewTable) : List ViewChunk → Option (ViewTable × Nat)
  | [] => some (t, 0)
  | c :: rest => do
    let (t', n) ← c.execute? t
    let (t'', n') ← executeChunks? t' rest
    some (t'', n + n')

/-- The statements of some chunks, one after another. -/
def flattened (cs : List ViewChunk) : List ViewStatement := cs.flatMap ViewChunk.statements

/-- An insert chunk is not empty, has no id twice, and could not take in the statement after it. -/
def ViewChunk.Full (next : Option ViewStatement) : ViewChunk → Prop
  | .insert rows => rows ≠ [] ∧ (rows.map (·.id)).Nodup ∧
      ∀ r, next = some (.insert r) → r.id ∈ rows.map (·.id)
  | .update _ | .delete _ => True

/-- All chunks are full. -/
def AllFull : List ViewChunk → Prop
  | [] => True
  | c :: rest => c.Full (flattened rest).head? ∧ AllFull rest

theorem AllFull.of_append {before after : List ViewChunk} {c : ViewChunk}
    (h : AllFull (before ++ c :: after)) : c.Full (flattened after).head? := by
  induction before with
  | nil => exact h.1
  | cons _ before ih => exact ih h.2

theorem foldl_apply_inserts (rows : List ViewRecord) (t : ViewTable) :
    (rows.map ViewStatement.insert).foldl ViewTable.apply t = rows.foldl ViewTable.put t := by
  rw [List.foldl_map]
  rfl

theorem sum_touchedEach_inserts (rows : List ViewRecord) (t : ViewTable) :
    (t.touchedEach (rows.map .insert)).sum = rows.length := by
  induction rows generalizing t with
  | nil => rfl
  | cons r rows ih =>
    rw [List.map_cons, ViewTable.touchedEach, List.sum_cons, ih, List.length_cons, Nat.add_comm]
    rfl

/-- A full chunk does to the records what its statements do, one after another. -/
theorem ViewChunk.Full.execute {c : ViewChunk} {next : Option ViewStatement} (h : c.Full next)
    (t : ViewTable) :
    c.execute? t =
      some (c.statements.foldl ViewTable.apply t, (t.touchedEach c.statements).sum) := by
  cases c with
  | insert rows =>
    obtain ⟨_, hnodup, _⟩ := h
    simp only [execute?, statements, ViewTable.upsert?_eq_foldl hnodup, Option.map_some,
      foldl_apply_inserts, sum_touchedEach_inserts]
  | update r => rfl
  | delete id => rfl

theorem AllFull.execute {cs : List ViewChunk} (h : AllFull cs) (t : ViewTable) :
    executeChunks? t cs =
      some ((flattened cs).foldl ViewTable.apply t, (t.touchedEach (flattened cs)).sum) := by
  induction cs generalizing t with
  | nil => rfl
  | cons c cs ih =>
    have hflat : flattened (c :: cs) = c.statements ++ flattened cs := List.flatMap_cons
    unfold executeChunks?
    rw [h.1.execute t, hflat, List.foldl_append, ViewTable.touchedEach_append, List.sum_append]
    simp only [Option.bind_eq_bind, Option.bind_some, ih h.2]

/-! ### The chunks of a batch -/

theorem flattened_closeRun (run : List ViewRecord) :
    flattened (closeRun run) = run.map .insert := by
  cases run with
  | nil => rfl
  | cons r run => exact List.append_nil _

theorem flattened_append (cs cs' : List ViewChunk) :
    flattened (cs ++ cs') = flattened cs ++ flattened cs' := List.flatMap_append

theorem flattened_coalesceAfter (run : List ViewRecord) (batch : List ViewStatement) :
    flattened (coalesceAfter run batch) = run.map .insert ++ batch := by
  fun_induction coalesceAfter run batch with
  | case1 run => rw [flattened_closeRun, List.append_nil]
  | case2 run r rest _ ih => rw [flattened_append, flattened_closeRun, ih]; rfl
  | case3 run r rest _ ih => rw [ih, List.map_append, List.append_assoc]; rfl
  | case4 run r rest ih =>
    rw [flattened_append, flattened_closeRun]
    show _ ++ .update r :: flattened (coalesceAfter [] rest) = _
    rw [ih]; rfl
  | case5 run id rest ih =>
    rw [flattened_append, flattened_closeRun]
    show _ ++ .delete id :: flattened (coalesceAfter [] rest) = _
    rw [ih]; rfl

/-- A run that is closed leaves a full chunk, if what follows could not go on with it. -/
theorem AllFull.closeRun_append {run : List ViewRecord} {cs : List ViewChunk}
    (hrun : (run.map (·.id)).Nodup) (hcs : AllFull cs)
    (hnext : ∀ r, (flattened cs).head? = some (.insert r) → r.id ∈ run.map (·.id)) :
    AllFull (closeRun run ++ cs) := by
  cases run with
  | nil => exact hcs
  | cons r run => exact ⟨⟨by simp, hrun, hnext⟩, hcs⟩

theorem allFull_coalesceAfter (run : List ViewRecord) (hrun : (run.map (·.id)).Nodup)
    (batch : List ViewStatement) : AllFull (coalesceAfter run batch) := by
  fun_induction coalesceAfter run batch with
  | case1 run =>
    rw [← List.append_nil (closeRun run)]
    exact AllFull.closeRun_append hrun trivial (by simp [flattened])
  | case2 run r rest hmem ih =>
    refine AllFull.closeRun_append hrun (ih (by simp)) ?_
    intro r' hr'
    rw [flattened_coalesceAfter] at hr'
    cases hr'
    simpa [List.any_eq_true] using hmem
  | case3 run r rest hnot ih =>
    apply ih
    rw [List.map_append, List.nodup_append]
    refine ⟨hrun, by simp, ?_⟩
    simpa [List.any_eq_true] using hnot
  | case4 run r rest ih =>
    exact AllFull.closeRun_append hrun ⟨trivial, ih (by simp)⟩
      (by simp [flattened, ViewChunk.statements])
  | case5 run id rest ih =>
    exact AllFull.closeRun_append hrun ⟨trivial, ih (by simp)⟩
      (by simp [flattened, ViewChunk.statements])

/-- The chunks of a batch hold its statements in their order. Each insert chunk has rows of distinct
ids, at least one, and ends only at a statement that could not join it. Carried out in their order,
the rows of an insert chunk at once, they leave the records and the count behind that the batch
leaves behind statement by statement. -/
theorem coalesce_preserves_batch (batch : List ViewStatement) :
    (coalesce batch).flatMap ViewChunk.statements = batch ∧
      (∀ before rows after, coalesce batch = before ++ .insert rows :: after →
        rows ≠ [] ∧ (rows.map (·.id)).Nodup ∧
          ∀ r, (after.flatMap ViewChunk.statements).head? = some (.insert r) →
            r.id ∈ rows.map (·.id)) ∧
      ∀ s : Workspace, ∃ t n, executeChunks? s.data.views (coalesce batch) = some (t, n) ∧
        (Work.executeViews batch).exec s =
          (.ok n, { s with data := { s.data with views := t } }) := by
  have hflat : flattened (coalesce batch) = batch := flattened_coalesceAfter [] batch
  have hfull : AllFull (coalesce batch) := allFull_coalesceAfter [] List.nodup_nil batch
  refine ⟨hflat, ?_, ?_⟩
  · intro before rows after hsplit
    rw [hsplit] at hfull
    exact hfull.of_append
  · intro s
    have hexecute := hfull.execute s.data.views
    rw [hflat] at hexecute
    exact ⟨_, _, hexecute, Work.exec_executeViews batch s⟩

end PinLedger
