import PinLedger.Feed.Page
import PinLedger.Proofs.FirstMention
import PinLedger.Proofs.Text.Blank

/-!
# PinLedger.Proofs.Feed.Layers

The layers of a preference are trimmed, and each is taken where it is mentioned first. The first
blank one is refused, whatever came before it.

* `layerIds_ok`, `layerIds_blank` — what comes of the layers of a preference
* `Preference.FirstBlank` — the first blank one
* `RawView.withPreference_ok`, `RawView.withPreference_firstBlank` — what comes of a view with its
  preference
-/

namespace PinLedger

variable {ls : List PreferenceLayer}

/-- Of layers none of which is blank, those that are not among the ids `seen` are taken where they
are mentioned first. -/
theorem layerIds_ok (h : ∀ l ∈ ls, trimmed l.id ≠ "") (i : Nat) (seen : List String) :
    layerIds i seen ls =
      .ok ((ls.map fun l => trimmed l.id).filter fun id => id ∉ seen).eraseDups := by
  induction ls generalizing i seen with
  | nil => rfl
  | cons l ls ih =>
    have ih := ih fun m hm => h m (List.mem_cons_of_mem l hm)
    unfold layerIds
    simp only [if_neg (h l List.mem_cons_self), List.map_cons, ih]
    by_cases hseen : trimmed l.id ∈ seen
    · rw [if_pos hseen, List.filter_cons_of_neg (by simp [hseen])]
    · rw [if_neg hseen, List.filter_cons_of_pos (by simp [hseen]), List.eraseDups_cons,
        List.filter_filter]
      refine congrArg (fun ids : List String => Except.ok (trimmed l.id :: ids.eraseDups)) ?_
      exact List.filter_congr fun id _ => by grind

/-- The first blank layer is refused. -/
theorem layerIds_blank {front back : List PreferenceLayer} {l : PreferenceLayer}
    (hfront : ∀ m ∈ front, trimmed m.id ≠ "") (h : trimmed l.id = "") (i : Nat)
    (seen : List String) :
    layerIds i seen (front ++ l :: back) = .error (i + front.length) := by
  induction front generalizing i seen with
  | nil =>
    unfold layerIds
    rw [List.nil_append]
    exact if_pos h
  | cons m front ih =>
    have ih := ih fun n hn => hfront n (List.mem_cons_of_mem m hn)
    have hindex : i + (m :: front).length = i + 1 + front.length := by
      rw [List.length_cons]
      omega
    rw [List.cons_append, layerIds, if_neg (hfront m List.mem_cons_self), hindex]
    split
    · exact ih (i + 1) seen
    · rw [ih (i + 1)]
      rfl

/-- The `i`-th layer is blank, and none before it. -/
def Preference.FirstBlank (p : Preference) (i : Nat) : Prop :=
  ∃ l, p.layers[i]? = some l ∧ trimmed l.id = "" ∧ ∀ m ∈ p.layers.take i, trimmed m.id ≠ ""

theorem Preference.exists_firstBlank {p : Preference} (h : ∃ l ∈ p.layers, trimmed l.id = "") :
    ∃ i, p.FirstBlank i := by
  have hlt : p.layers.findIdx (fun l => trimmed l.id = "") < p.layers.length :=
    List.findIdx_lt_length_of_exists (by simpa using h)
  refine ⟨_, _, List.getElem?_eq_getElem hlt, ?_, fun m hm => ?_⟩
  · simpa using List.findIdx_getElem (w := hlt)
  · obtain ⟨j, hj, rfl⟩ := List.mem_take_iff_getElem.1 hm
    simpa using List.not_of_lt_findIdx (show j < _ from (Nat.lt_min.1 hj).1)

theorem layerIds_firstBlank {p : Preference} {i : Nat} (h : p.FirstBlank i) :
    layerIds 0 [] p.layers = .error i := by
  obtain ⟨l, hl, hblank, hbefore⟩ := h
  obtain ⟨hi, rfl⟩ := List.getElem?_eq_some_iff.1 hl
  have hsplit : p.layers = p.layers.take i ++ p.layers[i] :: p.layers.drop (i + 1) := by
    rw [List.getElem_cons_drop, List.take_append_drop]
  have herror : layerIds 0 [] (p.layers.take i ++ p.layers[i] :: p.layers.drop (i + 1)) = _ :=
    layerIds_blank hbefore hblank 0 []
  rw [← hsplit, List.length_take, Nat.zero_add, Nat.min_eq_left hi.le] at herror
  exact herror

/-- The trimmed ids of the layers. -/
def Preference.trimmedIds (p : Preference) : List String := p.layers.map fun l => trimmed l.id

theorem layerIds_layers {p : Preference} (h : ∀ l ∈ p.layers, trimmed l.id ≠ "") :
    layerIds 0 [] p.layers = .ok p.trimmedIds.eraseDups := by
  have hall : p.trimmedIds.filter (fun id => id ∉ ([] : List String)) = p.trimmedIds :=
    List.filter_eq_self.2 fun id _ => by simp
  rw [layerIds_ok h 0 []]
  exact congrArg (fun ids : List String => Except.ok ids.eraseDups) hall

theorem RawView.parse_eq {raw : RawView} {p : Preference}
    (h : Preference.shape.readDocument raw.preference = .ok p) :
    raw.parse = raw.withPreference p := by
  unfold RawView.parse
  rw [h]

/-- The view with a preference none of whose layers is blank. -/
def RawView.normal (raw : RawView) (p : Preference) : ParsedView where
  id := raw.id
  layers := p.trimmedIds.eraseDups
  time := p.time.value
  timeMode := p.time.mode
  disabled := raw.disabled
  drivingLayer := p.drivingLayer
  lastUpdate := raw.lastUpdate

theorem RawView.withPreference_ok (raw : RawView) {p : Preference}
    (h : ∀ l ∈ p.layers, trimmed l.id ≠ "") : raw.withPreference p = .ok (raw.normal p) := by
  unfold RawView.withPreference
  rw [layerIds_layers h]
  rfl

theorem RawView.withPreference_firstBlank (raw : RawView) {p : Preference} {i : Nat}
    (h : p.FirstBlank i) : raw.withPreference p = .error (.blankLayer raw.id i) := by
  unfold RawView.withPreference
  rw [layerIds_firstBlank h]

/-- Either no layer is blank or there is a first one that is. -/
theorem RawView.parse_cases {raw : RawView} {p : Preference}
    (hp : Preference.shape.readDocument raw.preference = .ok p) :
    ((∀ l ∈ p.layers, trimmed l.id ≠ "") ∧ raw.parse = .ok (raw.normal p)) ∨
      ∃ i, p.FirstBlank i ∧ raw.parse = .error (.blankLayer raw.id i) := by
  rw [RawView.parse_eq hp]
  by_cases h : ∃ l ∈ p.layers, trimmed l.id = ""
  · obtain ⟨i, hi⟩ := Preference.exists_firstBlank h
    exact .inr ⟨i, hi, raw.withPreference_firstBlank hi⟩
  · have hnamed : ∀ l ∈ p.layers, trimmed l.id ≠ "" := fun l hl hblank => h ⟨l, hl, hblank⟩
    exact .inl ⟨hnamed, raw.withPreference_ok hnamed⟩

/-- The first blank layer is one of the layers. -/
theorem Preference.FirstBlank.exists_blank {p : Preference} {i : Nat} (h : p.FirstBlank i) :
    ∃ l ∈ p.layers, trimmed l.id = "" := by
  obtain ⟨l, hl, hblank, _⟩ := h
  exact ⟨l, List.mem_of_getElem? hl, hblank⟩

end PinLedger
