import PinLedger.Feed.Memory
import PinLedger.Proofs.Failing

/-!
# PinLedger.Proofs.Feed.Memory

A feed that is changed by upserts keeps one view for each id, and drops none.

* `mem_put`, `nodup_put`, `exists_put` — what an upsert does to the list of the views
* `unchanged_of_not_mem` — a page leaves out views only that told no later update
* `parse_eq_ok` — the fields of a decoded view
-/

namespace PinLedger
namespace MemoryFeed

variable {v raw : RawView} {views : List RawView}

theorem mem_put (h : raw ∈ put v views) : raw = v ∨ raw ∈ views := by
  induction views with
  | nil => exact .inl (List.mem_singleton.1 h)
  | cons u views ih =>
    unfold put at h
    by_cases hid : u.id = v.id
    · rw [if_pos hid] at h
      rcases List.mem_cons.1 h with h | h
      · exact .inl h
      · exact .inr (List.mem_cons_of_mem u h)
    · rw [if_neg hid] at h
      rcases List.mem_cons.1 h with rfl | h
      · exact .inr List.mem_cons_self
      · rcases ih h with h | h
        · exact .inl h
        · exact .inr (List.mem_cons_of_mem u h)

/-- The ids stay. -/
theorem exists_put (h : raw ∈ views) : ∃ raw' ∈ put v views, raw'.id = raw.id := by
  induction views with
  | nil => cases h
  | cons u views ih =>
    unfold put
    by_cases hid : u.id = v.id
    · rw [if_pos hid]
      rcases List.mem_cons.1 h with rfl | h
      · exact ⟨v, List.mem_cons_self, hid.symm⟩
      · exact ⟨raw, List.mem_cons_of_mem v h, rfl⟩
    · rw [if_neg hid]
      rcases List.mem_cons.1 h with rfl | h
      · exact ⟨raw, List.mem_cons_self, rfl⟩
      · obtain ⟨raw', hraw', heq⟩ := ih h
        exact ⟨raw', List.mem_cons_of_mem u hraw', heq⟩

theorem nodup_put (h : (views.map (·.id)).Nodup) : ((put v views).map (·.id)).Nodup := by
  induction views with
  | nil => exact List.pairwise_singleton _ _
  | cons u views ih =>
    obtain ⟨hu, hrest⟩ := List.nodup_cons.1 h
    unfold put
    by_cases hid : u.id = v.id
    · rw [if_pos hid, List.map_cons, ← hid]
      exact h
    · rw [if_neg hid, List.map_cons]
      refine List.nodup_cons.2 ⟨?_, ih hrest⟩
      intro hmem
      obtain ⟨raw, hraw, heq⟩ := List.mem_map.1 hmem
      rcases mem_put hraw with rfl | hraw
      · exact hid heq.symm
      · exact hu (List.mem_map.2 ⟨raw, hraw, heq⟩)

/-- A page is the views that have changed since. -/
theorem fetch_eq_ok {f : MemoryFeed} {since : Option Instant} {page : List RawView}
    (h : f.fetch since = .ok page) : page = f.views.filter (changedSince since) := by
  unfold fetch at h
  cases hf : f.failure with
  | some text =>
    rw [hf] at h
    cases h
  | none =>
    rw [hf] at h
    cases h
    rfl

/-- What is left out of a page told an update, and no later one than that asked for. -/
theorem unchanged_of_not_mem {since : Option Instant} (hraw : raw ∈ views)
    (h : raw ∉ views.filter (changedSince since)) :
    ∃ t m, raw.lastUpdate = some t ∧ since = some m ∧ t ≤ m := by
  have hunchanged : changedSince since raw = false := by
    rw [← Bool.not_eq_true]
    exact fun hchanged => h (List.mem_filter.2 ⟨hraw, hchanged⟩)
  unfold changedSince at hunchanged
  cases hsince : since with
  | none =>
    rw [hsince] at hunchanged
    cases hunchanged
  | some m =>
    cases htold : raw.lastUpdate with
    | none =>
      rw [hsince, htold] at hunchanged
      cases hunchanged
    | some t =>
      rw [hsince, htold] at hunchanged
      exact ⟨t, m, rfl, rfl, by simpa using hunchanged⟩

end MemoryFeed

/-- The fields that a decoded view has from the feed. -/
theorem parse_eq_ok {raw : RawView} {v : ParsedView} (h : raw.parse = .ok v) :
    v.id = raw.id ∧ v.disabled = raw.disabled ∧ v.lastUpdate = raw.lastUpdate := by
  unfold RawView.parse at h
  cases hp : Preference.shape.readDocument raw.preference with
  | error f =>
    rw [hp] at h
    cases h
  | ok p =>
    rw [hp] at h
    unfold RawView.withPreference at h
    simp only at h
    cases hl : layerIds 0 [] p.layers with
    | error i =>
      rw [hl] at h
      cases h
    | ok layers =>
      rw [hl] at h
      cases h
      exact ⟨rfl, rfl, rfl⟩

/-- The ids of a decoded page. -/
theorem ids_of_mapM_parse {page : List RawView} {views : List ParsedView}
    (h : page.mapM RawView.parse = .ok views) : views.map (·.id) = page.map (·.id) := by
  induction page generalizing views with
  | nil =>
    cases h
    rfl
  | cons raw page ih =>
    rw [List.mapM_cons] at h
    obtain ⟨v, hv, h⟩ := bind_eq_ok.1 h
    obtain ⟨rest, hrest, h⟩ := bind_eq_ok.1 h
    cases h
    rw [List.map_cons, List.map_cons, (parse_eq_ok hv).1, ih hrest]

end PinLedger
