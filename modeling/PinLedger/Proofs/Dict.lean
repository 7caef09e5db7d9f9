import PinLedger.Dict

/-!
# PinLedger.Proofs.Dict

The entries of a dictionary are the values that it finds.

* `Dict.mem_entries` — an entry is a key with the value that is found for it
* `Dict.find?_ofList` — of the entries of a list, the last one of a key counts
* `Dict.modify_congr` — a change depends on what it makes of the value of its key
* `Dict.modify_modify`, `Dict.modify_of_find?` — two changes of one key, and a change that is none
* `Dict.map` — every value changed
-/

namespace PinLedger

namespace Dict

variable {κ ν : Type} [DecidableEq κ]

theorem mem_iff_lookupIn {l : List (κ × ν)} (h : (l.map Prod.fst).Nodup) {k : κ} {v : ν} :
    (k, v) ∈ l ↔ lookupIn k l = some v := by
  induction l with
  | nil => simp [lookupIn]
  | cons e l ih =>
    obtain ⟨k', v'⟩ := e
    obtain ⟨hnot, hrest⟩ := List.nodup_cons.1 h
    by_cases hk : k = k'
    · subst hk
      have hout : (k, v) ∉ l := fun hmem => hnot (List.mem_map.2 ⟨(k, v), hmem, rfl⟩)
      simp [lookupIn, hout, eq_comm]
    · simp [lookupIn, hk, ih hrest]

theorem mem_entries {d : Dict κ ν} {k : κ} {v : ν} : (k, v) ∈ d.entries ↔ d.find? k = some v :=
  mem_iff_lookupIn d.nodup

theorem mem_values {d : Dict κ ν} {k : κ} {v : ν} (h : d.find? k = some v) : v ∈ d.values :=
  List.mem_map_of_mem (mem_entries.2 h)

theorem exists_of_mem_values {d : Dict κ ν} {v : ν} (h : v ∈ d.values) :
    ∃ k, d.find? k = some v := by
  obtain ⟨⟨k, v⟩, hmem, rfl⟩ := List.mem_map.1 h
  exact ⟨k, mem_entries.1 hmem⟩

theorem mem_keys {d : Dict κ ν} {k : κ} : k ∈ d.keys ↔ d.contains k = true := by
  rw [contains, Option.isSome_iff_exists]
  constructor
  · intro h
    obtain ⟨⟨k, v⟩, hmem, rfl⟩ := List.mem_map.1 h
    exact ⟨v, mem_entries.1 hmem⟩
  · rintro ⟨v, hv⟩
    exact List.mem_map_of_mem (mem_entries.2 hv)

/-- What comes last counts. -/
theorem find?_ofList (l : List (κ × ν)) (k : κ) :
    (ofList l).find? k = (l.reverse.find? (·.1 = k)).map Prod.snd := by
  have hfrom : ∀ d : Dict κ ν, (l.foldl (fun d e => d.insert e.1 e.2) d).find? k =
      ((l.reverse.find? (·.1 = k)).map Prod.snd).or (d.find? k) := by
    induction l with
    | nil =>
      intro d
      rfl
    | cons e l ih =>
      intro d
      rw [List.foldl_cons, ih, find?_insert, List.reverse_cons, List.find?_append]
      cases l.reverse.find? (·.1 = k) with
      | some e' => rfl
      | none =>
        by_cases hk : k = e.1
        · simp [hk]
        · simp [hk, Ne.symm hk]
  rw [ofList, hfrom, find?_empty, Option.or_none]

theorem find?_singleton {k k' : κ} {v u : ν} (h : (ofList [(k, v)]).find? k' = some u) :
    k' = k ∧ u = v := by
  change ((empty : Dict κ ν).insert k v).find? k' = some u at h
  rw [find?_insert, find?_empty] at h
  by_cases hk : k' = k
  · rw [if_pos hk] at h
    exact ⟨hk, (Option.some.inj h).symm⟩
  · rw [if_neg hk] at h
    cases h

theorem modifyIn_congr {f g : ν → ν} {k : κ} {l : List (κ × ν)}
    (h : ∀ v, lookupIn k l = some v → f v = g v) : modifyIn k f l = modifyIn k g l := by
  induction l with
  | nil => rfl
  | cons e l ih =>
    obtain ⟨k', v'⟩ := e
    by_cases hk : k = k'
    · have hv : f v' = g v' := h v' (by simp [lookupIn, hk])
      simp [modifyIn, hk, hv]
    · have hrest : modifyIn k f l = modifyIn k g l := by
        refine ih fun v hv => h v ?_
        simpa [lookupIn, hk] using hv
      simp [modifyIn, hk, hrest]

theorem modify_congr {d : Dict κ ν} {k : κ} {f g : ν → ν}
    (h : ∀ v, d.find? k = some v → f v = g v) : d.modify k f = d.modify k g := by
  unfold modify
  simp only [modifyIn_congr h]

theorem modifyIn_modifyIn (f g : ν → ν) (k : κ) (l : List (κ × ν)) :
    modifyIn k g (modifyIn k f l) = modifyIn k (fun v => g (f v)) l := by
  induction l with
  | nil => rfl
  | cons e l ih =>
    obtain ⟨k', v'⟩ := e
    by_cases hk : k = k'
    · simp [modifyIn, hk]
    · simp [modifyIn, hk, ih]

theorem modify_modify (d : Dict κ ν) (f g : ν → ν) (k : κ) :
    (d.modify k f).modify k g = d.modify k fun v => g (f v) := by
  unfold modify
  simp only [modifyIn_modifyIn]

theorem modifyIn_of_lookupIn {k : κ} {v : ν} {l : List (κ × ν)} (h : lookupIn k l = some v) :
    modifyIn k (fun _ => v) l = l := by
  induction l with
  | nil => rfl
  | cons e l ih =>
    obtain ⟨k', v'⟩ := e
    by_cases hk : k = k'
    · have hv : v' = v := by simpa [lookupIn, hk] using h
      simp [modifyIn, hk, hv]
    · have hrest : lookupIn k l = some v := by simpa [lookupIn, hk] using h
      simp [modifyIn, hk, ih hrest]

theorem modify_of_find? {d : Dict κ ν} {k : κ} {v : ν} (h : d.find? k = some v) :
    d.modify k (fun _ => v) = d := by
  unfold modify
  simp only [modifyIn_of_lookupIn h]

/-- The same keys with changed values. -/
def map {ν' : Type} (d : Dict κ ν) (f : ν → ν') : Dict κ ν' where
  entries := d.entries.map fun e => (e.1, f e.2)
  nodup := by
    rw [List.map_map]
    exact d.nodup

theorem lookupIn_map {ν' : Type} (f : ν → ν') (k : κ) (l : List (κ × ν)) :
    lookupIn k (l.map fun e => (e.1, f e.2)) = (lookupIn k l).map f := by
  induction l with
  | nil => rfl
  | cons e l ih =>
    simp only [List.map_cons, lookupIn, ih]
    split
    · rfl
    · rfl

theorem find?_map {ν' : Type} (d : Dict κ ν) (f : ν → ν') (k : κ) :
    (d.map f).find? k = (d.find? k).map f :=
  lookupIn_map f k d.entries

end Dict

end PinLedger
