import PinLedger.Feed.Writer
import PinLedger.Proofs.Feed.Layers
import PinLedger.Proofs.Feed.Page
import PinLedger.Proofs.Time.Text

/-!
# PinLedger.Proofs.Feed.RoundTrip

The documents of the feed, written and read back: a preference as a document of its own, and a page
of views each of which carries the document of its preference in a string.

* `readDocument_preference` — a preference
* `decodePage_renderPage` — the views of a page
* `SavedView.page_parses` — the views of a page and their preferences
-/

namespace PinLedger

open Json

variable {least : Nat}

/-! ### Preferences -/

theorem settles_instant {t : Instant} (h : t.Readable) :
    Settles readInstant least (instantJson t).chars (.ok t) := by
  intro depth _ gap rest hgap _
  unfold readInstant instantJson
  rw [readStringAs_text _ _ hgap]
  simp only [bind, Except.bind, Instant.render, String.toList_ofList,
    Instant.read_chars (Instant.readable_iff.1 h)]
  rfl

theorem starts_object (ms : List (String × Value)) : Starts (Value.object ms).chars := by
  rw [chars_object]
  exact starts_objectText _ _

/-- A value that has been written for a field. -/
theorem reads_fieldOf {α β : Type} {name : String} {required : Bool} {r : Json.Reader β}
    {put : β → α → α} {v : Value} {b : β} (h : Settles r least v.chars (.ok b)) :
    Field.Reads least (fieldOf name required r put) (v, put b) :=
  h.fieldOf name required

theorem reads_aliased {α β : Type} {name : String} {required : Bool} {r : Json.Reader β}
    {put : β → α → α} {v : Value} {b : β} {aliases : List String}
    (h : Settles r least v.chars (.ok b)) :
    Field.Reads least { fieldOf name required r put with aliases := aliases } (v, put b) :=
  h.fieldOf name required

theorem settles_layer {l : PreferenceLayer} (h : l.state = none) :
    Settles PreferenceLayer.shape.reader (least + 2) l.json.chars (.ok l) := by
  obtain ⟨id, name, state⟩ := l
  obtain rfl : state = none := h
  exact settles_written (show PreferenceLayer.shape.keys.Nodup by decide +kernel)
    (.cons (reads_fieldOf (settles_text id)) (.cons (reads_fieldOf (settles_optional_text name))
      (.cons (reads_fieldOf settles_null) .nil)))

theorem TimeMode.ofName_name (m : TimeMode) : TimeMode.ofName m.name = m := by
  cases m <;> rfl

theorem settles_time {t : PreferenceTime} (h : t.value.Readable) :
    Settles PreferenceTime.shape.reader (least + 2) t.json.chars (.ok t) := by
  have hmode : Settles (choice TimeMode.ofName) least (Value.text t.mode.name).chars
      (.ok (TimeMode.ofName t.mode.name)) := settles_choice TimeMode.ofName t.mode.name
  rw [TimeMode.ofName_name] at hmode
  exact settles_written (show PreferenceTime.shape.keys.Nodup by decide +kernel)
    (.cons (reads_fieldOf hmode) (.cons (reads_fieldOf (settles_instant h)) .nil))

/-- Nothing of the preference is lost when it is written: its layers have no state, and its time can
be told by a text. -/
structure Preference.Writable (p : Preference) : Prop where
  stateless : ∀ l ∈ p.layers, l.state = none
  readable : p.time.value.Readable

theorem settles_preference {p : Preference} (h : p.Writable) :
    Settles Preference.shape.reader 6 p.json.chars (.ok p) := by
  have hlayers : ∀ l ∈ p.layers, Starts l.json.chars ∧
      Settles PreferenceLayer.shape.reader 2 l.json.chars (.ok l) :=
    fun l hl => ⟨starts_object _, settles_layer (h.stateless l hl)⟩
  exact settles_written (show Preference.shape.keys.Nodup by decide +kernel)
    (.cons (reads_fieldOf (settles_written_list hlayers))
      (.cons (reads_fieldOf (settles_time h.readable))
        (.cons (reads_fieldOf (settles_optional_text p.drivingLayer)) .nil)))

theorem readDocument_preference {p : Preference} (h : p.Writable) :
    Preference.shape.readDocument p.json.render = .ok p :=
  (settles_preference h).readDocument (by decide)

/-! ### Pages -/

/-- Nothing of the view is lost when it is written. -/
structure RawView.Writable (v : RawView) : Prop where
  fits : FitsSigned 64 v.id
  readable : ∀ t ∈ v.lastUpdate, t.Readable

theorem settles_rawView {v : RawView} (h : v.Writable) :
    Settles RawView.shape.reader 2 v.json.chars (.ok v) := by
  have hupdate : Settles (optional readInstant) 0 (Value.optional instantJson v.lastUpdate).chars
      (.ok v.lastUpdate) :=
    settles_written_optional fun t ht =>
      ⟨starts_text t.render, by simp [instantJson, Value.chars, stringChars],
        settles_instant (h.readable t ht)⟩
  exact settles_written (show RawView.shape.keys.Nodup by decide +kernel)
    (.cons (reads_fieldOf (settles_integer h.fits))
      (.cons (reads_fieldOf (settles_boolean v.disabled))
        (.cons (reads_fieldOf (settles_text v.preference)) (.cons (reads_aliased hupdate) .nil))))

theorem decodePage_renderPage {views : List RawView} (h : ∀ v ∈ views, v.Writable) :
    decodePage (renderPage views) = .ok views := by
  have hviews : ∀ v ∈ views, Starts v.json.chars ∧
      Settles RawView.shape.reader 2 v.json.chars (.ok v) :=
    fun v hv => ⟨starts_object _, settles_rawView (h v hv)⟩
  have hembedded := settles_written (show embeddedShape.keys.Nodup by decide +kernel)
    (.cons (reads_fieldOf (settles_written_list hviews)) .nil)
  have hpage := settles_written (show pageShape.keys.Nodup by decide +kernel)
    (.cons (reads_fieldOf (hembedded.optional (starts_object _) (by simp [Value.chars]))) .nil)
  have hread : pageShape.readDocument (renderPage views) = .ok views :=
    hpage.readDocument (by decide)
  unfold decodePage
  rw [hread]
  rfl

/-! ### Views with their preferences -/

/-- A view as it was saved. -/
structure SavedView where
  id : Int
  disabled : Bool
  preference : Preference
  lastUpdate : Option Instant

namespace SavedView

/-- The view as the feed lists it, with the document of its preference in a string. -/
def raw (v : SavedView) : RawView where
  id := v.id
  disabled := v.disabled
  preference := v.preference.json.render
  lastUpdate := v.lastUpdate

/-- What is asked for of the view. -/
def parsed (v : SavedView) : ParsedView where
  id := v.id
  layers := (v.preference.layers.map fun l => trimmed l.id).eraseDups
  time := v.preference.time.value
  timeMode := v.preference.time.mode
  disabled := v.disabled
  drivingLayer := v.preference.drivingLayer
  lastUpdate := v.lastUpdate

/-- The view can be written, and none of its layers is blank. -/
structure WellFormed (v : SavedView) : Prop where
  fits : FitsSigned 64 v.id
  readable : ∀ t ∈ v.lastUpdate, t.Readable
  preference : v.preference.Writable
  named : ∀ l ∈ v.preference.layers, trimmed l.id ≠ ""

theorem parse_raw {v : SavedView} (h : v.WellFormed) : v.raw.parse = .ok v.parsed := by
  have hread : Preference.shape.readDocument v.raw.preference = .ok v.preference :=
    readDocument_preference h.preference
  rw [RawView.parse_eq hread, v.raw.withPreference_ok h.named]
  rfl

/-- **A page that has been written is read as the views that were saved.** The preference of each
view stands as a document in a string of the page, so that its own escapes are escaped once more. -/
theorem page_parses {views : List SavedView} (h : ∀ v ∈ views, v.WellFormed) :
    (do
      let raws ← decodePage (renderPage (views.map raw))
      raws.mapM RawView.parse) = .ok (views.map parsed) := by
  have hwritable : ∀ r ∈ views.map raw, r.Writable := by
    intro r hr
    obtain ⟨v, hv, rfl⟩ := List.mem_map.1 hr
    exact ⟨(h v hv).fits, (h v hv).readable⟩
  rw [decodePage_renderPage hwritable]
  exact mapM_map_eq_ok fun v hv => parse_raw (h v hv)

/-! A view with a layer that is mentioned twice, and whose id has to be escaped. -/

def quoted : SavedView where
  id := -7
  disabled := true
  preference := {
    layers := [⟨"\t\"a\\\n", some "\x01𝄞", none⟩, ⟨"b", none, none⟩, ⟨"\"a\\ ", none, none⟩]
    time := ⟨.relative, .epoch⟩
    drivingLayer := some "b" }
  lastUpdate := some .epoch

theorem quoted_wellFormed : quoted.WellFormed := by
  have hepoch : Instant.epoch.Readable := Instant.readable_iff.2 (by decide)
  refine ⟨by decide, ?_, ⟨?_, hepoch⟩, by decide +kernel⟩
  · rintro t ⟨⟩
    exact hepoch
  · intro l hl
    simp only [quoted, List.mem_cons, List.not_mem_nil, or_false] at hl
    rcases hl with rfl | rfl | rfl <;> rfl

/-- A view that does not tell its last update, at the last second of the calendar. -/
def distant : SavedView where
  id := 9223372036854775807
  disabled := false
  preference := {
    layers := [⟨"c", none, none⟩, ⟨" a", some "", none⟩]
    time := ⟨.absolute, ⟨8210266876799, 123456789, by decide, by decide, by decide⟩⟩
    drivingLayer := none }
  lastUpdate := none

theorem distant_wellFormed : distant.WellFormed := by
  refine ⟨by decide, ?_, ⟨?_, Instant.readable_iff.2 (by decide)⟩, by decide +kernel⟩
  · intro t ht
    cases ht
  · intro l hl
    simp only [distant, List.mem_cons, List.not_mem_nil, or_false] at hl
    rcases hl with rfl | rfl <;> rfl

/-- The year of the second view has a sign and six digits. -/
theorem page_parses_quoted :
    (∀ v ∈ [quoted, distant], v.WellFormed) ∧
      distant.preference.time.value.render = "+262142-12-31T23:59:59.123456789Z" ∧
      [quoted, distant].map (fun v => v.parsed.layers) = [["\"a\\", "b"], ["c", "a"]] ∧
      (do
        let raws ← decodePage (renderPage [quoted.raw, distant.raw])
        raws.mapM RawView.parse) = .ok [quoted.parsed, distant.parsed] := by
  have hviews : ∀ v ∈ [quoted, distant], v.WellFormed := by
    intro v hv
    simp only [List.mem_cons, List.not_mem_nil, or_false] at hv
    rcases hv with rfl | rfl
    · exact quoted_wellFormed
    · exact distant_wellFormed
  have hpage := page_parses hviews
  exact ⟨hviews, by decide +kernel, by decide +kernel, hpage⟩

end SavedView

end PinLedger
