import PinLedger.Proofs.Feed.RoundTrip
import PinLedger.Proofs.Json.Invariant

/-!
# PinLedger.Proofs.Feed.Normalization

What becomes of the layers of a view. What is asked for of a view is in a normal form: a preference
that is made of it is read as the same again.

* `readable_of_readDocument` — the time of a preference that has been read can be told by a text
* `Preference.Normalizes` — the layers of a preference in their normal form
* `Preference.Rebuilds` — a preference made of what is asked for of a view
* `RawView.parse_normalizes` — what comes of a view whose preference can be read
-/

namespace PinLedger

open Json

/-! ### Times that have been read -/

theorem keeps_fieldOf {α β : Type} {P : α → Prop} {Q : β → Prop} {name : String} {required : Bool}
    {r : Json.Reader β} {put : β → α → α}
    (hr : ∀ depth s b rest, r depth s = .ok (b, rest) → Q b)
    (hput : ∀ b a, Q b → P a → P (put b a)) : (fieldOf name required r put).Keeps P := by
  intro depth s change rest h a ha
  obtain ⟨⟨b, rest⟩, hread, heq⟩ := map_eq_ok.1 h
  cases heq
  exact hput b a (hr _ _ _ _ hread) ha

theorem readable_of_readInstant {depth : Nat} {s rest : List Char} {t : Instant}
    (h : readInstant depth s = .ok (t, rest)) : t.Readable := by
  obtain ⟨⟨text, s⟩, _, h⟩ := bind_eq_ok.1 (mapError_eq_ok.1 h)
  dsimp only at h
  split at h
  case h_1 t' hread =>
    cases h
    exact ⟨text.toList, hread⟩
  case h_2 => cases h

theorem readable_of_readTime {depth : Nat} {s rest : List Char} {t : PreferenceTime}
    (h : PreferenceTime.shape.reader depth s = .ok (t, rest)) : t.value.Readable := by
  refine Shape.reader_keeps (P := fun t => t.value.Readable) (fun f hf => ?_)
    (Instant.readable_iff.2 (by decide)) h
  simp only [PreferenceTime.shape, List.mem_cons, List.not_mem_nil, or_false] at hf
  rcases hf with rfl | rfl
  · exact keeps_fieldOf (Q := fun _ => True) (fun _ _ _ _ _ => trivial) fun _ _ _ ht => ht
  · exact keeps_fieldOf (fun _ _ _ _ => readable_of_readInstant) fun _ _ ht _ => ht

theorem readable_of_readDocument {text : String} {p : Preference}
    (h : Preference.shape.readDocument text = .ok p) : p.time.value.Readable := by
  refine Shape.readDocument_keeps (P := fun p => p.time.value.Readable) (fun f hf => ?_)
    (Instant.readable_iff.2 (by decide)) h
  simp only [Preference.shape, List.mem_cons, List.not_mem_nil, or_false] at hf
  rcases hf with rfl | rfl | rfl
  · exact keeps_fieldOf (Q := fun _ => True) (fun _ _ _ _ _ => trivial) fun _ _ _ hp => hp
  · exact keeps_fieldOf (fun _ _ _ _ => readable_of_readTime) fun _ _ ht _ => ht
  · exact keeps_fieldOf (Q := fun _ => True) (fun _ _ _ _ _ => trivial) fun _ _ _ hp => hp

/-! ### Normal forms -/

/-- The layers are those of the preference: trimmed and not blank, each once, in the order of their
first mention. -/
structure Preference.Normalizes (p : Preference) (layers : List String) : Prop where
  unpadded : ∀ id ∈ layers, id ≠ "" ∧ trimmed id = id
  nodup : layers.Nodup
  ordered : layers.Pairwise fun id id' => p.trimmedIds.idxOf id < p.trimmedIds.idxOf id'
  mem_iff : ∀ id, id ∈ layers ↔ id ∈ p.trimmedIds

theorem Preference.normalizes {p : Preference} (h : ∀ l ∈ p.layers, trimmed l.id ≠ "") :
    p.Normalizes p.trimmedIds.eraseDups where
  unpadded id hid := by
    obtain ⟨l, hl, rfl⟩ := List.mem_map.1 (List.mem_eraseDups.1 hid)
    exact ⟨h l hl, trimmed_trimmed l.id⟩
  nodup := nodup_eraseDups _
  ordered := pairwise_idxOf_eraseDups _
  mem_iff _ := List.mem_eraseDups

/-- The preference says what is asked for of the view, whatever names its layers have. -/
structure Preference.Rebuilds (p : Preference) (v : ParsedView) : Prop where
  layers : p.layers.map (·.id) = v.layers
  stateless : ∀ l ∈ p.layers, l.state = none
  time : p.time = ⟨v.timeMode, v.time⟩
  drivingLayer : p.drivingLayer = v.drivingLayer

/-- Layers in their normal form are left as they are. -/
theorem Preference.trimmedIds_of_unpadded {p : Preference} {layers : List String}
    (hp : p.layers.map (·.id) = layers) (h : ∀ id ∈ layers, trimmed id = id) :
    p.trimmedIds = layers := by
  have hmap : p.trimmedIds = (p.layers.map (·.id)).map trimmed := by
    rw [List.map_map]
    rfl
  rw [hmap, hp]
  exact (List.map_congr_left h).trans (List.map_id layers)

/-- What has been made of a view is read as the same again. -/
theorem RawView.parse_rebuilt {raw : RawView} {p q : Preference}
    (hreadable : p.time.value.Readable) (hp : ∀ l ∈ p.layers, trimmed l.id ≠ "")
    (hq : q.Rebuilds (raw.normal p)) :
    ({ raw with preference := q.json.render } : RawView).parse = .ok (raw.normal p) := by
  obtain ⟨hunpadded, hnodup, _, _⟩ := Preference.normalizes hp
  have hids : q.trimmedIds = p.trimmedIds.eraseDups :=
    Preference.trimmedIds_of_unpadded hq.layers fun id hid => (hunpadded id hid).2
  have hnamed : ∀ l ∈ q.layers, trimmed l.id ≠ "" := by
    intro l hl
    have hmem : trimmed l.id ∈ q.trimmedIds := List.mem_map_of_mem hl
    rw [hids] at hmem
    exact (hunpadded _ hmem).1
  have hwritable : q.Writable := by
    refine ⟨hq.stateless, ?_⟩
    rw [hq.time]
    exact hreadable
  have hread : Preference.shape.readDocument
      ({ raw with preference := q.json.render } : RawView).preference = .ok q :=
    readDocument_preference hwritable
  rw [RawView.parse_eq hread, RawView.withPreference_ok _ hnamed]
  unfold RawView.normal
  rw [hids, eraseDups_of_nodup hnodup, hq.time, hq.drivingLayer]
  rfl

/-- **The layers of a view are normalized.** Its preference can be read. The view is refused if and
only if some layer is blank when it is trimmed, and then the first such layer is named, whatever came
before it. Else its layers are trimmed, each is taken where it is mentioned first, the rest of the view
is taken over, and a preference that is made of this is read as the same again. -/
theorem RawView.parse_normalizes {raw : RawView} {p : Preference}
    (hp : Preference.shape.readDocument raw.preference = .ok p) :
    ((∃ err, raw.parse = .error err ∧ err.name = "InvalidPreference") ↔
        ∃ l ∈ p.layers, trimmed l.id = "") ∧
      (∀ err, raw.parse = .error err ↔ ∃ i, p.FirstBlank i ∧ err = .blankLayer raw.id i) ∧
      ∀ v, raw.parse = .ok v →
        p.Normalizes v.layers ∧
        (∀ q : Preference, q.Rebuilds v →
          ({ raw with preference := q.json.render } : RawView).parse = .ok v) ∧
        v.id = raw.id ∧ v.disabled = raw.disabled ∧ v.lastUpdate = raw.lastUpdate ∧
        v.time = p.time.value ∧ v.timeMode = p.time.mode ∧ v.drivingLayer = p.drivingLayer := by
  rcases RawView.parse_cases hp with ⟨hnamed, hparse⟩ | ⟨i, hi, hparse⟩
  · refine ⟨⟨?_, ?_⟩, fun err => ⟨?_, ?_⟩, fun v hv => ?_⟩
    · rintro ⟨err, herr, _⟩
      rw [hparse] at herr
      cases herr
    · rintro ⟨l, hl, hblank⟩
      exact absurd hblank (hnamed l hl)
    · intro herr
      rw [hparse] at herr
      cases herr
    · rintro ⟨i, hi, _⟩
      obtain ⟨l, hl, hblank⟩ := hi.exists_blank
      exact absurd hblank (hnamed l hl)
    · rw [hparse] at hv
      cases hv
      have hreadable := readable_of_readDocument hp
      exact ⟨Preference.normalizes hnamed, fun q hq => RawView.parse_rebuilt hreadable hnamed hq,
        rfl, rfl, rfl, rfl, rfl, rfl⟩
  · refine ⟨⟨fun _ => hi.exists_blank, fun _ => ⟨_, hparse, rfl⟩⟩, fun err => ⟨?_, ?_⟩,
      fun v hv => ?_⟩
    · intro herr
      rw [hparse] at herr
      cases herr
      exact ⟨i, hi, rfl⟩
    · rintro ⟨i', hi', rfl⟩
      rw [RawView.parse_eq hp]
      exact raw.withPreference_firstBlank hi'
    · rw [hparse] at hv
      cases hv

/-! The view whose first layer is mentioned twice, and one with a blank layer after such a layer. -/

def spaced : Preference where
  layers := [⟨"a ", none, none⟩, ⟨"\ta", none, none⟩, ⟨" \n", none, none⟩, ⟨"", none, none⟩]
  time := ⟨.absolute, .epoch⟩
  drivingLayer := none

theorem RawView.parse_normalizes_spaced :
    (∃ p, Preference.shape.readDocument SavedView.quoted.raw.preference = .ok p ∧
        p.Normalizes ["\"a\\", "b"]) ∧
      (⟨5, false, spaced.json.render, none⟩ : RawView).parse = .error (.blankLayer 5 2) := by
  have hquoted := SavedView.quoted_wellFormed
  have hread : Preference.shape.readDocument SavedView.quoted.raw.preference =
      .ok SavedView.quoted.preference := readDocument_preference hquoted.preference
  obtain ⟨_, _, hok⟩ := RawView.parse_normalizes hread
  obtain ⟨hnormal, _⟩ := hok _ (SavedView.parse_raw hquoted)
  have hspaced : spaced.Writable := by
    refine ⟨fun l hl => ?_, Instant.readable_iff.2 (by decide)⟩
    simp only [spaced, List.mem_cons, List.not_mem_nil, or_false] at hl
    rcases hl with rfl | rfl | rfl | rfl <;> rfl
  have hblank : spaced.FirstBlank 2 :=
    ⟨⟨" \n", none, none⟩, rfl, by decide +kernel, by decide +kernel⟩
  have hread' : Preference.shape.readDocument
      (⟨5, false, spaced.json.render, none⟩ : RawView).preference = .ok spaced :=
    readDocument_preference hspaced
  obtain ⟨_, herror, _⟩ := RawView.parse_normalizes hread'
  have hlayers : SavedView.quoted.parsed.layers = ["\"a\\", "b"] := by decide +kernel
  rw [hlayers] at hnormal
  exact ⟨⟨_, hread, hnormal⟩, (herror _).2 ⟨2, hblank, rfl⟩⟩

end PinLedger
