import Mathlib.Data.List.Forall2
import PinLedger.Proofs.Text.Lines
import PinLedger.Proofs.Text.Parts
import PinLedger.Warning

/-!
# PinLedger.Proofs.Layer.Mapping

The grammar of the mapping. Each line of a text is passed over, or it holds an entry, or it is
malformed and there is a warning with its number. The texts with certain entries are those that have
them on lines of their own, in order, with blanks around the fields and with other lines in between.

* `MappingLine.Reads`, `reads_iff` — what a line is
* `MappingEntry.laidOut_iff` — the lines that hold an entry
* `MappingSheet`, `entriesIn_eq_iff` — the texts that hold certain entries
* `mem_mappingWarnings`, `mappingWarnings_ordered` — what is said about the lines
* `readMapping_grammar` — what is read from a text
-/

namespace PinLedger

open Text

variable {raw eol p s : List Char} {f : String} {e : MappingEntry} {es : List MappingEntry}

/-! ### Lines -/

/-- Blank, or a comment. -/
def MappingLine.Ignorable (raw : List Char) : Prop :=
  trim raw = [] ∨ (trim raw).head? = some '#'

/-- The piece `p` of a line holds the field `f`. -/
structure HoldsField (p : List Char) (f : String) : Prop where
  comma : ',' ∉ p
  trimmed : trim p = f.toList
  nonempty : f ≠ ""

/-- Three fields with commas between them. -/
def MappingEntry.OnLine (e : MappingEntry) (raw : List Char) : Prop :=
  ∃ p q r, raw = p ++ ',' :: (q ++ ',' :: r) ∧
    HoldsField p e.layer ∧ HoldsField q e.workspace ∧ HoldsField r e.name

/-- What a line is, if it is cut out of the text without its end. -/
inductive MappingLine.Reads : List Char → MappingLine → Prop where
  | ignored {raw : List Char} : Ignorable raw → Reads raw .ignored
  | entry {raw : List Char} {e : MappingEntry} :
    ¬ Ignorable raw → e.OnLine raw → Reads raw (.entry e)
  | malformed {raw : List Char} :
    ¬ Ignorable raw → (∀ e : MappingEntry, ¬ e.OnLine raw) →
    Reads raw (.malformed (String.ofList raw))

namespace MappingEntry

theorem onLine_iff :
    e.OnLine raw ↔
      (parts ',' raw).map trim = [e.layer.toList, e.workspace.toList, e.name.toList] ∧
        e.layer ≠ "" ∧ e.workspace ≠ "" ∧ e.name ≠ "" := by
  constructor
  · rintro ⟨p, q, r, hraw, hp, hq, hr⟩
    have hparts : parts ',' raw = [p, q, r] := by
      rw [parts_eq_iff (List.cons_ne_nil _ _), List.forall_mem_cons, List.forall_mem_cons,
        List.forall_mem_singleton]
      exact ⟨by simp [joined, hraw], hp.comma, hq.comma, hr.comma⟩
    rw [hparts]
    simp only [List.map_cons, List.map_nil, hp.trimmed, hq.trimmed, hr.trimmed]
    exact ⟨trivial, hp.nonempty, hq.nonempty, hr.nonempty⟩
  · rintro ⟨hmap, hlayer, hworkspace, hname⟩
    obtain ⟨p, ps, hparts, hp, hmap⟩ := List.map_eq_cons_iff.1 hmap
    obtain ⟨q, qs, rfl, hq, hmap⟩ := List.map_eq_cons_iff.1 hmap
    obtain ⟨r, rs, rfl, hr, hmap⟩ := List.map_eq_cons_iff.1 hmap
    obtain rfl := List.map_eq_nil_iff.1 hmap
    obtain ⟨hraw, hout⟩ := (parts_eq_iff (List.cons_ne_nil _ _)).1 hparts
    exact ⟨p, q, r, by simpa [joined] using hraw, ⟨hout p (by simp), hp, hlayer⟩,
      ⟨hout q (by simp), hq, hworkspace⟩, ⟨hout r (by simp), hr, hname⟩⟩

theorem OnLine.unique {e' : MappingEntry} (h : e.OnLine raw) (h' : e'.OnLine raw) : e = e' := by
  have hfields := (onLine_iff.1 h).1.symm.trans (onLine_iff.1 h').1
  simp only [List.cons.injEq, and_true, String.toList_inj] at hfields
  cases e
  cases e'
  simp only [MappingEntry.mk.injEq]
  exact hfields

end MappingEntry

namespace MappingLine

theorem reads_read (raw : List Char) : Reads raw (read raw) := by
  -- the pieces of the line as it is are as good as those of the trimmed line
  simp only [read, map_trim_parts_trim (by decide : isBlank ',' = false) raw]
  by_cases hi : trim raw = [] ∨ (trim raw).head? = some '#'
  · rw [if_pos hi]
    exact .ignored hi
  · rw [if_neg hi]
    split
    · rename_i layer workspace name hmap
      split
      · rename_i hblank
        refine .malformed hi fun e he => ?_
        obtain ⟨hmap', hlayer, hworkspace, hname⟩ := MappingEntry.onLine_iff.1 he
        rw [hmap] at hmap'
        simp only [List.cons.injEq, and_true] at hmap'
        obtain ⟨rfl, rfl, rfl⟩ := hmap'
        simp only [String.toList_eq_nil_iff] at hblank
        rcases hblank with h | h | h
        · exact hlayer h
        · exact hworkspace h
        · exact hname h
      · rename_i hfilled
        rw [not_or, not_or] at hfilled
        refine .entry hi (MappingEntry.onLine_iff.2 ?_)
        simp only [String.toList_ofList]
        refine ⟨hmap, ?_⟩
        simpa [← String.toList_eq_nil_iff] using hfilled
    · rename_i hshape
      refine .malformed hi fun e he => ?_
      exact hshape _ _ _ (MappingEntry.onLine_iff.1 he).1

/-- A line is one thing only. -/
theorem Reads.unique {l l' : MappingLine} (h : Reads raw l) (h' : Reads raw l') : l = l' := by
  cases h with
  | ignored hi =>
    cases h' with
    | ignored => rfl
    | entry hno => exact absurd hi hno
    | malformed hno => exact absurd hi hno
  | entry hno he =>
    cases h' with
    | ignored hi => exact absurd hi hno
    | entry _ he' => rw [he.unique he']
    | malformed _ hnone => exact absurd he (hnone _)
  | malformed hno hnone =>
    cases h' with
    | ignored hi => exact absurd hi hno
    | entry _ he => exact absurd he (hnone _)
    | malformed => rfl

theorem reads_iff {l : MappingLine} : Reads raw l ↔ read raw = l :=
  ⟨fun h => (reads_read raw).unique h, fun h => h ▸ reads_read raw⟩

/-- Blanks at the end of a line do not matter for its entry. -/
theorem mappingEntries_read_append {b : List Char} (hb : ∀ c ∈ b, isBlank c = true)
    (l : List Char) : mappingEntries [read (l ++ b)] = mappingEntries [read l] := by
  simp only [read, map_trim_parts_trim (by decide : isBlank ',' = false), trim_append_right hb]
  split
  · rfl
  · split
    · split
      · rfl
      · rfl
    · rfl

theorem mappingEntries_read_dropReturn (l : List Char) :
    mappingEntries [read (dropReturn l)] = mappingEntries [read l] := by
  by_cases hr : l.getLast? = some '\r'
  · obtain ⟨l, rfl⟩ := List.getLast?_eq_some_iff.1 hr
    rw [dropReturn_concat, mappingEntries_read_append (List.forall_mem_singleton.2 rfl)]
  · rw [dropReturn_of_ne hr]

end MappingLine

/-! ### Fields -/

/-- What may be a field of an entry. -/
structure IsField (f : String) : Prop where
  nonempty : f ≠ ""
  unpadded : trimmed f = f
  comma : ',' ∉ f.toList
  newline : '\n' ∉ f.toList

/-- Blanks, all on one line. -/
def IsPadding (s : List Char) : Prop := ∀ c ∈ s, isBlank c = true ∧ c ≠ '\n'

def Padded (f : String) (p : List Char) : Prop :=
  ∃ a b, IsPadding a ∧ IsPadding b ∧ p = a ++ f.toList ++ b

theorem IsPadding.blank (h : IsPadding s) : ∀ c ∈ s, isBlank c = true := fun c hc => (h c hc).1

theorem IsPadding.not_mem_comma (h : IsPadding s) : ',' ∉ s :=
  not_mem_of_blank (by decide) h.blank

theorem IsPadding.not_mem_newline (h : IsPadding s) : '\n' ∉ s := fun hmem => (h '\n' hmem).2 rfl

theorem isField_and_padded_iff : IsField f ∧ Padded f p ↔ HoldsField p f ∧ '\n' ∉ p := by
  constructor
  · rintro ⟨hf, a, b, ha, hb, rfl⟩
    have hunpadded := congrArg String.toList hf.unpadded
    rw [trimmed, String.toList_ofList] at hunpadded
    simp only [List.mem_append, not_or]
    refine ⟨⟨?_, ?_, hf.nonempty⟩, ⟨ha.not_mem_newline, hf.newline⟩, hb.not_mem_newline⟩
    · simp only [List.mem_append, not_or]
      exact ⟨⟨ha.not_mem_comma, hf.comma⟩, hb.not_mem_comma⟩
    · rw [trim_append_right hb.blank, trim_append_left ha.blank, hunpadded]
  · rintro ⟨hp, hnewline⟩
    obtain ⟨a, b, ha, hb, hsplit⟩ := exists_trim p
    have hcomma := hp.comma
    rw [hp.trimmed] at hsplit
    rw [hsplit] at hcomma hnewline
    simp only [List.mem_append, not_or] at hcomma hnewline
    refine ⟨⟨hp.nonempty, ?_, hcomma.1.2, hnewline.1.2⟩, a, b, ?_, ?_, hsplit⟩
    · rw [trimmed, ← hp.trimmed, trim_trim, hp.trimmed, String.ofList_toList]
    · intro c hc
      exact ⟨ha c hc, fun heq => hnewline.1.1 (heq ▸ hc)⟩
    · intro c hc
      exact ⟨hb c hc, fun heq => hnewline.2 (heq ▸ hc)⟩

namespace MappingEntry

structure WellFormed (e : MappingEntry) : Prop where
  layer : IsField e.layer
  workspace : IsField e.workspace
  name : IsField e.name
  /-- The line would be a comment. -/
  uncommented : e.layer.toList.head? ≠ some '#'

/-- The line `raw` is the entry with blanks around its fields. -/
def LaidOut (e : MappingEntry) (raw : List Char) : Prop :=
  ∃ p q r, raw = p ++ ',' :: (q ++ ',' :: r) ∧
    Padded e.layer p ∧ Padded e.workspace q ∧ Padded e.name r

theorem OnLine.ignorable_iff (h : e.OnLine raw) :
    MappingLine.Ignorable raw ↔ e.layer.toList.head? = some '#' := by
  obtain ⟨p, q, r, rfl, hp, _, _⟩ := h
  have hlayer : trim p ≠ [] := by
    rw [hp.trimmed, Ne, String.toList_eq_nil_iff]
    exact hp.nonempty
  have hline : trim (p ++ ',' :: (q ++ ',' :: r)) ≠ [] :=
    trim_ne_nil (c := ',') (by decide) (by simp)
  unfold MappingLine.Ignorable
  rw [head?_trim_append hlayer, hp.trimmed]
  simp only [hline, false_or]

/-- The lines that hold an entry are those on which it is laid out, if it is well-formed. -/
theorem laidOut_iff :
    e.WellFormed ∧ e.LaidOut raw ↔ MappingLine.read raw = .entry e ∧ '\n' ∉ raw := by
  rw [← MappingLine.reads_iff]
  constructor
  · rintro ⟨he, p, q, r, rfl, hp, hq, hr⟩
    obtain ⟨hp, hpOut⟩ := isField_and_padded_iff.1 ⟨he.layer, hp⟩
    obtain ⟨hq, hqOut⟩ := isField_and_padded_iff.1 ⟨he.workspace, hq⟩
    obtain ⟨hr, hrOut⟩ := isField_and_padded_iff.1 ⟨he.name, hr⟩
    have hon : e.OnLine (p ++ ',' :: (q ++ ',' :: r)) := ⟨p, q, r, rfl, hp, hq, hr⟩
    refine ⟨.entry (fun hi => he.uncommented (hon.ignorable_iff.1 hi)) hon, ?_⟩
    simp [hpOut, hqOut, hrOut]
  · rintro ⟨hread, hout⟩
    cases hread with
    | entry hno hon =>
      have huncommented := fun hhead => hno (hon.ignorable_iff.2 hhead)
      obtain ⟨p, q, r, rfl, hp, hq, hr⟩ := hon
      simp only [List.mem_append, List.mem_cons, not_or] at hout
      obtain ⟨hlayer, hp⟩ := isField_and_padded_iff.2 ⟨hp, hout.1⟩
      obtain ⟨hworkspace, hq⟩ := isField_and_padded_iff.2 ⟨hq, hout.2.2.1⟩
      obtain ⟨hname, hr⟩ := isField_and_padded_iff.2 ⟨hr, hout.2.2.2.2⟩
      exact ⟨⟨hlayer, hworkspace, hname, huncommented⟩, p, q, r, rfl, hp, hq, hr⟩

theorem laidOut_render (e : MappingEntry) : e.LaidOut e.render := by
  have hplain : ∀ f : String, Padded f f.toList := fun f =>
    ⟨[], [], by simp [IsPadding], by simp [IsPadding], by simp⟩
  exact ⟨_, _, _, by simp [render, joined], hplain e.layer, hplain e.workspace, hplain e.name⟩

end MappingEntry

/-! ### Texts -/

/-- The end of a line, before the text `rest`. The last line may lack its end. -/
def EndsLine (eol rest : List Char) : Prop :=
  eol = ['\n'] ∨ eol = ['\r', '\n'] ∨ eol = [] ∧ rest = []

/-- A text with the entries `es`, one on a line, and with other lines in between. -/
inductive MappingSheet : List MappingEntry → List Char → Prop where
  | nil : MappingSheet [] []
  | between {raw eol s : List Char} {es : List MappingEntry} : '\n' ∉ raw →
    MappingLine.Reads raw .ignored ∨ MappingLine.Reads raw (.malformed (String.ofList raw)) →
    EndsLine eol s → MappingSheet es s → MappingSheet es (raw ++ eol ++ s)
  | entry {e : MappingEntry} {raw eol s : List Char} {es : List MappingEntry} :
    e.WellFormed → e.LaidOut raw → EndsLine eol s → MappingSheet es s →
    MappingSheet (e :: es) (raw ++ eol ++ s)

def entriesIn (s : List Char) : List MappingEntry :=
  mappingEntries ((lines s).map MappingLine.read)

theorem entriesIn_nil : entriesIn [] = [] := by
  unfold entriesIn
  rw [lines_nil]
  rfl

theorem entriesIn_of_lines {ls : List (List Char)} (h : lines s = raw :: ls) :
    entriesIn s = mappingEntries [MappingLine.read raw] ++
      mappingEntries (ls.map MappingLine.read) := by
  unfold entriesIn mappingEntries
  rw [h, List.map_cons, ← List.singleton_append, List.filterMap_append]

/-- One more line at the front of a text. A carriage return at its end is blank, and so it does not
matter whether it belongs to the line. -/
theorem entriesIn_append (h : '\n' ∉ raw) (hend : EndsLine eol s) :
    entriesIn (raw ++ eol ++ s) = mappingEntries [MappingLine.read raw] ++ entriesIn s := by
  rcases hend with rfl | rfl | ⟨rfl, rfl⟩
  · rw [List.append_assoc, List.singleton_append, entriesIn_of_lines (lines_append h s),
      MappingLine.mappingEntries_read_dropReturn]
    rfl
  · have hreturn : '\n' ∉ raw ++ ['\r'] := by simp [h]
    have htext : raw ++ ['\r', '\n'] ++ s = (raw ++ ['\r']) ++ '\n' :: s := by simp
    rw [htext, entriesIn_of_lines (lines_append hreturn s), dropReturn_concat]
    rfl
  · rw [List.append_nil, List.append_nil, entriesIn_nil]
    by_cases hraw : raw = []
    · rw [hraw, entriesIn_nil]
      rfl
    · rw [entriesIn_of_lines (lines_of_not_mem h hraw)]
      rfl

namespace MappingSheet

theorem line (h : '\n' ∉ raw) (hend : EndsLine eol s) (hs : MappingSheet es s) :
    MappingSheet (mappingEntries [MappingLine.read raw] ++ es) (raw ++ eol ++ s) := by
  have hreads := MappingLine.reads_read raw
  cases hread : MappingLine.read raw with
  | ignored => exact .between h (.inl (hread ▸ hreads)) hend hs
  | entry e =>
    obtain ⟨he, hlaid⟩ := MappingEntry.laidOut_iff.2 ⟨hread, h⟩
    exact .entry he hlaid hend hs
  | malformed text =>
    rw [hread] at hreads
    cases hreads with
    | malformed hno hnone => exact .between h (.inr (.malformed hno hnone)) hend hs

theorem of_entriesIn (s : List Char) : MappingSheet (entriesIn s) s := by
  induction s using byLine with
  | nil =>
    rw [entriesIn_nil]
    exact .nil
  | last l h _ =>
    have hend : EndsLine [] [] := .inr (.inr ⟨rfl, rfl⟩)
    have hline := line h hend .nil
    rw [← entriesIn_nil, ← entriesIn_append h hend, List.append_nil, List.append_nil] at hline
    exact hline
  | line l s h ih =>
    have hline := line h (.inl rfl) ih
    rw [← entriesIn_append h (.inl rfl), List.append_assoc, List.singleton_append] at hline
    exact hline

theorem entriesIn_eq (h : MappingSheet es s) : entriesIn s = es := by
  induction h with
  | nil => exact entriesIn_nil
  | between hraw hother hend _ ih =>
    rw [entriesIn_append hraw hend, ih]
    rcases hother with hother | hother
    · rw [MappingLine.reads_iff.1 hother]
      rfl
    · rw [MappingLine.reads_iff.1 hother]
      rfl
  | entry he hlaid hend _ ih =>
    obtain ⟨hread, hraw⟩ := MappingEntry.laidOut_iff.1 ⟨he, hlaid⟩
    rw [entriesIn_append hraw hend, ih, hread]
    rfl

theorem wellFormed (h : MappingSheet es s) : ∀ e ∈ es, e.WellFormed := by
  induction h with
  | nil =>
    intro e he
    cases he
  | between _ _ _ _ ih => exact ih
  | entry he _ _ _ ih => exact List.forall_mem_cons.2 ⟨he, ih⟩

end MappingSheet

theorem entriesIn_eq_iff : entriesIn s = es ↔ MappingSheet es s :=
  ⟨fun h => h ▸ MappingSheet.of_entriesIn s, MappingSheet.entriesIn_eq⟩

/-- The text with one entry on each line and nothing else. -/
def mappingText (es : List MappingEntry) : String :=
  String.ofList (es.flatMap fun e => e.render ++ ['\n'])

theorem sheet_mappingText (h : ∀ e ∈ es, e.WellFormed) :
    MappingSheet es (mappingText es).toList := by
  rw [mappingText, String.toList_ofList]
  induction es with
  | nil => exact .nil
  | cons e es ih =>
    obtain ⟨he, hes⟩ := List.forall_mem_cons.1 h
    exact .entry he e.laidOut_render (.inl rfl) (ih hes)

/-! ### Warnings -/

/-- What there is to say about a line with a number of lines before it. -/
def mappingWarning? (l : MappingLine × Nat) : Option Warning :=
  match l.1 with
  | .malformed text => some (.malformedMapping (l.2 + 1) text)
  | _ => none

theorem mappingWarning?_eq_some {l : MappingLine × Nat} {w : Warning} :
    mappingWarning? l = some w ↔
      ∃ text, l.1 = .malformed text ∧ w = .malformedMapping (l.2 + 1) text := by
  obtain ⟨l, i⟩ := l
  cases l with
  | ignored => simp [mappingWarning?]
  | entry e => simp [mappingWarning?]
  | malformed text => simp [mappingWarning?, eq_comm]

theorem mappingWarnings_eq (ls : List MappingLine) :
    mappingWarnings ls = ls.zipIdx.filterMap mappingWarning? := rfl

theorem mem_mappingWarnings {ls : List MappingLine} {w : Warning} :
    w ∈ mappingWarnings ls ↔
      ∃ i text, ls[i]? = some (.malformed text) ∧ w = .malformedMapping (i + 1) text := by
  rw [mappingWarnings_eq, List.mem_filterMap]
  constructor
  · rintro ⟨⟨l, i⟩, hmem, hw⟩
    obtain ⟨text, rfl, rfl⟩ := mappingWarning?_eq_some.1 hw
    exact ⟨i, text, List.mk_mem_zipIdx_iff_getElem?.1 hmem, rfl⟩
  · rintro ⟨i, text, hl, rfl⟩
    exact ⟨(.malformed text, i), List.mk_mem_zipIdx_iff_getElem?.2 hl, rfl⟩

/-- `v` is about an earlier line than `w`. -/
def Warning.LineBefore (v w : Warning) : Prop :=
  ∃ m n r s, v = .malformedMapping m r ∧ w = .malformedMapping n s ∧ m < n

theorem mappingWarnings_ordered (ls : List MappingLine) :
    (mappingWarnings ls).Pairwise Warning.LineBefore := by
  have hidx : ls.zipIdx.Pairwise fun a b => a.2 < b.2 := by
    have hrange := List.pairwise_lt_range' (s := 0) (n := ls.length)
    rw [← List.zipIdx_map_snd, List.pairwise_map] at hrange
    exact hrange
  rw [mappingWarnings_eq, List.pairwise_filterMap]
  refine hidx.imp ?_
  intro a b hlt w hw w' hw'
  obtain ⟨text, _, rfl⟩ := mappingWarning?_eq_some.1 hw
  obtain ⟨text', _, rfl⟩ := mappingWarning?_eq_some.1 hw'
  exact ⟨_, _, _, _, rfl, rfl, Nat.succ_lt_succ hlt⟩

/-- Every line counts once. -/
theorem length_mappingEntries_add (ls : List MappingLine) :
    (mappingEntries ls).length + (mappingWarnings ls).length + ls.count .ignored = ls.length := by
  rw [mappingWarnings_eq, mappingEntries]
  -- by induction, wherever the numbers of the lines begin
  generalize 0 = k
  induction ls generalizing k with
  | nil => rfl
  | cons l ls ih =>
    have hrest := ih (k + 1)
    rw [List.zipIdx_cons, List.length_cons]
    cases l with
    | ignored =>
      have hentry : MappingLine.entry? .ignored = none := rfl
      have hwarning : mappingWarning? (.ignored, k) = none := rfl
      rw [List.filterMap_cons_none hentry, List.filterMap_cons_none hwarning,
        List.count_cons_self]
      omega
    | entry e =>
      have hentry : MappingLine.entry? (.entry e) = some e := rfl
      have hwarning : mappingWarning? (.entry e, k) = none := rfl
      rw [List.filterMap_cons_some hentry, List.filterMap_cons_none hwarning,
        List.count_cons_of_ne (by simp), List.length_cons]
      omega
    | malformed text =>
      have hentry : MappingLine.entry? (.malformed text) = none := rfl
      have hwarning : mappingWarning? (.malformed text, k) =
        some (.malformedMapping (k + 1) text) := rfl
      rw [List.filterMap_cons_none hentry, List.filterMap_cons_some hwarning,
        List.count_cons_of_ne (by simp), List.length_cons]
      omega

/-- **The grammar of the mapping.** Each line of a text is ignored, or one entry, or malformed, and
counts once; there is a warning with its number for each malformed line, in order. The entries are
well-formed, and a text has certain entries if and only if they are laid out in it. So they are read
back from every text in which they are laid out, in particular from the plain one. -/
theorem readMapping_grammar (text : String) :
    (∃ ls, Lined ls text.toList ∧ List.Forall₂ MappingLine.Reads ls (readMapping text) ∧
      (mappingEntries (readMapping text)).length + (mappingWarnings (readMapping text)).length +
        (readMapping text).count .ignored = ls.length) ∧
    (∀ w, w ∈ mappingWarnings (readMapping text) ↔ ∃ i raw,
      (readMapping text)[i]? = some (.malformed raw) ∧ w = .malformedMapping (i + 1) raw) ∧
    (mappingWarnings (readMapping text)).Pairwise Warning.LineBefore ∧
    (∀ e ∈ mappingEntries (readMapping text), e.WellFormed) ∧
    (∀ es, mappingEntries (readMapping text) = es ↔ MappingSheet es text.toList) ∧
    (∀ es, (∀ e ∈ es, MappingEntry.WellFormed e) →
      mappingEntries (readMapping (mappingText es)) = es) ∧
    mappingEntries (readMapping (mappingText (mappingEntries (readMapping text)))) =
      mappingEntries (readMapping text) := by
  have hplain : ∀ es, (∀ e ∈ es, MappingEntry.WellFormed e) →
      mappingEntries (readMapping (mappingText es)) = es :=
    fun es hes => (sheet_mappingText hes).entriesIn_eq
  have hformed : ∀ e ∈ mappingEntries (readMapping text), e.WellFormed :=
    (MappingSheet.of_entriesIn text.toList).wellFormed
  refine ⟨⟨lines text.toList, lined_lines _, ?_, ?_⟩, fun w => mem_mappingWarnings,
    mappingWarnings_ordered _, hformed, fun es => entriesIn_eq_iff, hplain, hplain _ hformed⟩
  · unfold readMapping
    rw [List.forall₂_map_right_iff, List.forall₂_same]
    intro raw _
    exact MappingLine.reads_read raw
  · rw [length_mappingEntries_add, readMapping, List.length_map]

def annotatedMapping : String :=
  "# layers\r\n\u00a0stars , sky\t, stars\r\n\nsky,comets\n  #dust,sky,dust\nwind,lab,\r\rair"

/-- A comment, an entry with blanks, a blank line, a line of two fields, another comment, and an
entry on a last line that has no end. The carriage returns in it are blanks. -/
theorem readMapping_grammar_annotated :
    MappingSheet [⟨"stars", "sky", "stars"⟩, ⟨"wind", "lab", "air"⟩] annotatedMapping.toList ∧
      mappingWarnings (readMapping annotatedMapping) = [.malformedMapping 4 "sky,comets"] := by
  obtain ⟨_, _, _, _, hsheet, _, _⟩ := readMapping_grammar annotatedMapping
  exact ⟨(hsheet _).1 (by decide +kernel), by decide +kernel⟩

end PinLedger
