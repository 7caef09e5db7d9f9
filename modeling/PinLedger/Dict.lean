/-!
# PinLedger.Dict

Dictionaries that keep the order in which their keys first came.

* `Dict.find?` — the value of a key
* `Dict.insert` — a new key goes to the end, a known one keeps its place
* `Dict.modify`, `Dict.erase`, `Dict.filter` — changing and dropping entries
-/

namespace PinLedger

/-- The entries of distinct keys. -/
structure Dict (κ ν : Type) where
  entries : List (κ × ν)
  nodup : (entries.map Prod.fst).Nodup

namespace Dict

variable {κ ν : Type} [DecidableEq κ]

instance [DecidableEq ν] : DecidableEq (Dict κ ν) := fun a b =>
  decidable_of_iff (a.entries = b.entries) (by cases a; cases b; simp)

def empty : Dict κ ν := ⟨[], List.nodup_nil⟩

instance : EmptyCollection (Dict κ ν) := ⟨empty⟩

def keys (d : Dict κ ν) : List κ := d.entries.map Prod.fst

def values (d : Dict κ ν) : List ν := d.entries.map Prod.snd

def size (d : Dict κ ν) : Nat := d.entries.length

def lookupIn (k : κ) : List (κ × ν) → Option ν
  | [] => none
  | (k', v) :: rest => if k = k' then some v else lookupIn k rest

def modifyIn (k : κ) (f : ν → ν) : List (κ × ν) → List (κ × ν)
  | [] => []
  | (k', v) :: rest => if k = k' then (k', f v) :: rest else (k', v) :: modifyIn k f rest

/-- Gives `k` the value `v`, at the end if it is new. -/
def insertIn (k : κ) (v : ν) : List (κ × ν) → List (κ × ν)
  | [] => [(k, v)]
  | (k', v') :: rest => if k = k' then (k', v) :: rest else (k', v') :: insertIn k v rest

theorem keys_modifyIn (k : κ) (f : ν → ν) (l : List (κ × ν)) :
    (modifyIn k f l).map Prod.fst = l.map Prod.fst := by
  fun_induction modifyIn k f l with
  | case1 => rfl
  | case2 => rfl
  | case3 _ _ _ _ ih => simp [ih]

theorem keys_insertIn (k : κ) (v : ν) (l : List (κ × ν)) :
    (insertIn k v l).map Prod.fst =
      if k ∈ l.map Prod.fst then l.map Prod.fst else l.map Prod.fst ++ [k] := by
  fun_induction insertIn k v l with
  | case1 => simp
  | case2 => simp
  | case3 k' v' rest h ih =>
    simp only [List.map_cons, ih, List.mem_cons, h, false_or]; split <;> rfl

theorem nodup_insertIn (k : κ) (v : ν) {l : List (κ × ν)} (h : (l.map Prod.fst).Nodup) :
    ((insertIn k v l).map Prod.fst).Nodup := by
  rw [keys_insertIn]
  split
  · exact h
  · rename_i hk
    exact List.nodup_append.2 ⟨h, by simp, by simp; grind⟩

theorem lookupIn_insertIn (k k' : κ) (v : ν) (l : List (κ × ν)) :
    lookupIn k' (insertIn k v l) = if k' = k then some v else lookupIn k' l := by
  fun_induction insertIn k v l with
  | case1 => simp [lookupIn]
  | case2 v' rest => simp only [lookupIn]; split <;> simp_all
  | case3 k₁ v₁ rest h ih => simp only [lookupIn, ih]; split <;> split <;> simp_all

theorem lookupIn_modifyIn (k k' : κ) (f : ν → ν) (l : List (κ × ν)) :
    lookupIn k' (modifyIn k f l) =
      if k' = k then (lookupIn k' l).map f else lookupIn k' l := by
  fun_induction modifyIn k f l with
  | case1 => simp [lookupIn]
  | case2 v' rest => simp only [lookupIn]; split <;> simp_all
  | case3 k₁ v₁ rest h ih => simp only [lookupIn, ih]; split <;> split <;> simp_all

theorem lookupIn_filter (k : κ) (p : κ → Bool) (l : List (κ × ν)) :
    lookupIn k (l.filter fun e => p e.1) = if p k then lookupIn k l else none := by
  induction l with
  | nil => simp [lookupIn]
  | cons e l ih => simp only [List.filter, lookupIn]; grind [lookupIn]

def find? (d : Dict κ ν) (k : κ) : Option ν := lookupIn k d.entries

def contains (d : Dict κ ν) (k : κ) : Bool := (d.find? k).isSome

def insert (d : Dict κ ν) (k : κ) (v : ν) : Dict κ ν :=
  ⟨insertIn k v d.entries, nodup_insertIn k v d.nodup⟩

def modify (d : Dict κ ν) (k : κ) (f : ν → ν) : Dict κ ν :=
  ⟨modifyIn k f d.entries, by rw [keys_modifyIn]; exact d.nodup⟩

/-- The entries whose key and value pass `p`. -/
def filter (d : Dict κ ν) (p : κ × ν → Bool) : Dict κ ν :=
  ⟨d.entries.filter p, d.nodup.sublist (List.filter_sublist.map _)⟩

def erase (d : Dict κ ν) (k : κ) : Dict κ ν := d.filter fun e => e.1 ≠ k

/-- The entries of a list, a later one in the place of an earlier one of the same key. -/
def ofList (l : List (κ × ν)) : Dict κ ν := l.foldl (fun d e => d.insert e.1 e.2) empty

@[simp] theorem find?_empty (k : κ) : (empty : Dict κ ν).find? k = none := rfl

@[simp] theorem find?_insert (d : Dict κ ν) (k k' : κ) (v : ν) :
    (d.insert k v).find? k' = if k' = k then some v else d.find? k' :=
  lookupIn_insertIn ..

@[simp] theorem find?_modify (d : Dict κ ν) (k k' : κ) (f : ν → ν) :
    (d.modify k f).find? k' = if k' = k then (d.find? k').map f else d.find? k' :=
  lookupIn_modifyIn ..

@[simp] theorem find?_erase (d : Dict κ ν) (k k' : κ) :
    (d.erase k).find? k' = if k' = k then none else d.find? k' := by
  have := lookupIn_filter k' (fun x => decide (x ≠ k)) d.entries
  simp only [find?, erase, filter, this]
  by_cases h : k' = k <;> simp [h]

end Dict

end PinLedger
