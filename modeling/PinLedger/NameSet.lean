/-!
# PinLedger.NameSet

Sets of texts, kept in the order of their code points, which is also the order of their bytes.

* `NameSet` — a strictly increasing list of texts
* `NameSet.ofList` — the set of the texts in a list
* `NameSet.diff`, `NameSet.inter` — what one set has and another has not, or has too
-/

namespace PinLedger

/-- Puts `x` into an increasing list, where it is not there yet. -/
def insertName (x : String) : List String → List String
  | [] => [x]
  | y :: ys => if x < y then x :: y :: ys else if x = y then y :: ys else y :: insertName x ys

theorem mem_insertName {x y : String} {l : List String} :
    x ∈ insertName y l ↔ x = y ∨ x ∈ l := by
  fun_induction insertName y l with
  | case1 => simp
  | case2 => simp
  | case3 => simp
  | case4 z zs _ _ ih => simp [ih]; grind

theorem pairwise_insertName {x : String} {l : List String} (h : l.Pairwise (· < ·)) :
    (insertName x l).Pairwise (· < ·) := by
  fun_induction insertName x l with
  | case1 => simp
  | case2 y ys hlt =>
    refine List.pairwise_cons.2 ⟨fun z hz => ?_, h⟩
    rcases List.mem_cons.1 hz with rfl | hz
    · exact hlt
    · exact String.lt_trans hlt (List.rel_of_pairwise_cons h hz)
  | case3 => exact h
  | case4 y ys hlt hne ih =>
    refine List.pairwise_cons.2 ⟨fun z hz => ?_, ih (List.Pairwise.of_cons h)⟩
    rcases mem_insertName.1 hz with rfl | hz
    · exact String.not_le.1 fun hle => hne (String.le_antisymm hle (String.not_lt.1 hlt))
    · exact List.rel_of_pairwise_cons h hz

/-- A finite set of texts. -/
structure NameSet where
  toList : List String
  increasing : toList.Pairwise (· < ·)
deriving DecidableEq, Repr

namespace NameSet

def empty : NameSet := ⟨[], .nil⟩

instance : Membership String NameSet := ⟨fun s x => x ∈ s.toList⟩

theorem mem_def {x : String} {s : NameSet} : x ∈ s ↔ x ∈ s.toList := Iff.rfl

instance (x : String) (s : NameSet) : Decidable (x ∈ s) :=
  inferInstanceAs (Decidable (x ∈ s.toList))

def insert (x : String) (s : NameSet) : NameSet :=
  ⟨insertName x s.toList, pairwise_insertName s.increasing⟩

@[simp] theorem mem_insert {x y : String} {s : NameSet} : x ∈ s.insert y ↔ x = y ∨ x ∈ s :=
  mem_insertName

def ofList (l : List String) : NameSet := l.foldr insert empty

@[simp] theorem mem_ofList {x : String} {l : List String} : x ∈ ofList l ↔ x ∈ l := by
  induction l with
  | nil => simp [ofList, empty, mem_def]
  | cons y ys ih => simpa [ofList] using or_congr_right ih

def diff (s t : NameSet) : NameSet :=
  ⟨s.toList.filter (· ∉ t), s.increasing.filter _⟩

def inter (s t : NameSet) : NameSet :=
  ⟨s.toList.filter (· ∈ t), s.increasing.filter _⟩

@[simp] theorem mem_diff {x : String} {s t : NameSet} : x ∈ s.diff t ↔ x ∈ s ∧ x ∉ t := by
  simp [mem_def, diff]

@[simp] theorem mem_inter {x : String} {s t : NameSet} : x ∈ s.inter t ↔ x ∈ s ∧ x ∈ t := by
  simp [mem_def, inter]

def isEmpty (s : NameSet) : Bool := s.toList.isEmpty

end NameSet

end PinLedger
