import Mathlib.Data.List.Forall2
import PinLedger.Proofs.Json.Structure

/-!
# PinLedger.Proofs.Json.Writer

Written elements, read back. An escaped text spells the text, also where the text is a document that
has escapes of its own. A structure whose members have been written, in whatever order, is read with
the change that each of its members makes.

* `spells_escaped` — a text with its quotes, backslashes and control characters escaped
* `settles_integer`, `settles_boolean`, `settles_text` — plain elements
* `settles_written_list` — lists
* `settles_written` — structures
-/

namespace PinLedger.Json

open Text

variable {α β : Type} {r : Reader α} {least : Nat} {s t rest : List Char}

/-! ### Strings -/

theorem hexValue?_hexDigit {n : Nat} (h : n < 16) : hexValue? (hexDigit n) = some n := by
  have hall : ∀ n < 16, hexValue? (hexDigit n) = some n := by decide
  exact hall n h

theorem codeUnit?_low {n : Nat} (h : n < 32) :
    codeUnit? '0' '0' (hexDigit (n / 16)) (hexDigit (n % 16)) = some n := by
  have hzero : hexValue? '0' = some 0 := rfl
  unfold codeUnit?
  rw [hzero, hexValue?_hexDigit (by omega), hexValue?_hexDigit (by omega)]
  simp only [Option.some.injEq]
  omega

/-- A character is escaped by a letter, by its number, or not at all. -/
theorem escaped_cases (c : Char) :
    (∃ d, (d, c) ∈ shortEscapes ∧ escaped c = ['\\', d]) ∨
      (c.toNat < 32 ∧
        escaped c = ['\\', 'u', '0', '0', hexDigit (c.toNat / 16), hexDigit (c.toNat % 16)]) ∨
      (c ≠ '"' ∧ c ≠ '\\' ∧ 32 ≤ c.toNat ∧ escaped c = [c]) := by
  unfold escaped
  split_ifs with hquote hslash hb hf hn hr ht hlow
  · exact .inl ⟨'"', by simp [shortEscapes, hquote], rfl⟩
  · exact .inl ⟨'\\', by simp [shortEscapes, hslash], rfl⟩
  · exact .inl ⟨'b', by simp [shortEscapes, hb], rfl⟩
  · exact .inl ⟨'f', by simp [shortEscapes, hf], rfl⟩
  · exact .inl ⟨'n', by simp [shortEscapes, hn], rfl⟩
  · exact .inl ⟨'r', by simp [shortEscapes, hr], rfl⟩
  · exact .inl ⟨'t', by simp [shortEscapes, ht], rfl⟩
  · exact .inr (.inl ⟨hlow, rfl⟩)
  · exact .inr (.inr ⟨hquote, hslash, Nat.le_of_not_lt hlow, rfl⟩)

theorem Spells.cons_escaped (c : Char) (h : Spells s t) : Spells (escaped c ++ s) (c :: t) := by
  rcases escaped_cases c with ⟨d, hd, heq⟩ | ⟨hlow, heq⟩ | ⟨hquote, hslash, hc, heq⟩
  · rw [heq]
    exact .escape hd h
  · have hlead : isLeadingSurrogate c.toNat = false := by
      simp only [isLeadingSurrogate, Bool.and_eq_false_iff, decide_eq_false_iff_not]
      omega
    have htrail : isTrailingSurrogate c.toNat = false := by
      simp only [isTrailingSurrogate, Bool.and_eq_false_iff, decide_eq_false_iff_not]
      omega
    have hunit := Spells.unit (codeUnit?_low hlow) hlead htrail h
    rw [Char.ofNat_toNat] at hunit
    rw [heq]
    exact hunit
  · rw [heq]
    exact .plain hquote hslash hc h

theorem spells_escaped (t : List Char) : Spells (t.flatMap escaped) t := by
  induction t with
  | nil => exact .nil
  | cons c t ih => exact ih.cons_escaped c

theorem stringChars_eq (k : String) :
    stringChars k = '"' :: (k.toList.flatMap escaped ++ ['"']) := rfl

theorem starts_text (k : String) : Starts (Value.text k).chars :=
  ⟨'"', k.toList.flatMap escaped ++ ['"'], rfl, rfl⟩

theorem readStringAs_text (expected k : String) {gap : List Char} (hgap : Blank gap) :
    readStringAs expected (gap ++ ((Value.text k).chars ++ rest)) = .ok (k, rest) := by
  unfold readStringAs
  rw [(starts_text k).skipBlank hgap, Value.chars, stringChars_eq]
  simp only [List.cons_append, List.append_assoc, List.nil_append]
  exact readString_of_spells (spells_escaped k.toList) rest

theorem settles_text (k : String) : Settles readText least (Value.text k).chars (.ok k) := by
  intro depth _ gap rest hgap _
  unfold readText
  rw [readStringAs_text _ k hgap]
  rfl

theorem settles_choice (named : String → α) (name : String) :
    Settles (choice named) least (Value.text name).chars (.ok (named name)) := by
  intro depth _ gap rest hgap _
  unfold choice
  rw [(starts_text name).skipBlank hgap, Value.chars, stringChars_eq]
  simp only [List.cons_append, List.append_assoc, List.nil_append, if_true,
    readString_of_spells (spells_escaped name.toList)]
  rfl

theorem settles_boolean (b : Bool) : Settles readBool least (Value.boolean b).chars (.ok b) := by
  intro depth _ gap rest hgap _
  cases b with
  | false =>
    unfold readBool
    rw [Value.chars, IsValue.no.starts.skipBlank hgap]
    rfl
  | true =>
    unfold readBool
    rw [Value.chars, IsValue.yes.starts.skipBlank hgap]
    rfl

/-! ### Integers -/

/-- The number that digits make of one that comes before them. -/
def valueFrom (n : Nat) (ds : List Char) : Nat :=
  ds.foldl (fun n c => 10 * n + (digitValue? c).getD 0) n

theorem le_valueFrom (n : Nat) (ds : List Char) : n ≤ valueFrom n ds := by
  induction ds generalizing n with
  | nil => exact Nat.le_refl n
  | cons c ds ih =>
    have hrest := ih (10 * n + (digitValue? c).getD 0)
    show n ≤ valueFrom (10 * n + (digitValue? c).getD 0) ds
    omega

theorem readDigits_valueFrom {ds : List Char} (hds : ∀ c ∈ ds, isDigit c = true)
    (hstop : Stops isDigit rest) (n : Nat) (hmax : valueFrom n ds ≤ maxNatural) :
    readDigits n (ds ++ rest) = (valueFrom n ds, rest) := by
  induction ds generalizing n with
  | nil => exact readDigits_stop n hstop
  | cons c ds ih =>
    obtain ⟨d, hd⟩ := Option.isSome_iff_exists.1 (hds c List.mem_cons_self)
    have hstep : valueFrom n (c :: ds) = valueFrom (10 * n + d) ds := by
      unfold valueFrom
      rw [List.foldl_cons, hd, Option.getD_some]
    rw [hstep] at hmax ⊢
    have hsmall : 10 * n + d ≤ maxNatural := Nat.le_trans (le_valueFrom _ ds) hmax
    simp only [List.cons_append, readDigits, hd, if_pos hsmall]
    exact ih (fun d hd => hds d (List.mem_cons_of_mem c hd)) (10 * n + d) hmax

/-- The digits of a number do not start with a zero, unless it is zero. -/
theorem decimal_head {n : Nat} (h : 0 < n) :
    ∃ c ds d, decimal n = c :: ds ∧ digitValue? c = some (d + 1) := by
  fun_induction decimal n with
  | case1 n hn =>
    refine ⟨digit n, [], n - 1, rfl, ?_⟩
    rw [digitValue?_digit, Nat.mod_eq_of_lt hn, Nat.sub_add_cancel h]
  | case2 n hn ih =>
    obtain ⟨c, ds, d, hdecimal, hc⟩ := ih (by omega)
    exact ⟨c, ds ++ [digit n], d, by rw [hdecimal, List.cons_append], hc⟩

theorem readUnsigned_decimal (negative : Bool) {n : Nat} (h : n ≤ maxNatural) (hrest : Ends rest) :
    readUnsigned negative (decimal n ++ rest) = readAfterInteger negative n rest := by
  have hhead := head?_of_stops hrest.stops_isDigit
  rcases Nat.eq_zero_or_pos n with rfl | hpos
  · have hzero : decimal 0 = ['0'] := by
      unfold decimal
      rfl
    rw [hzero, List.cons_append, List.nil_append]
    simp only [readUnsigned]
    rw [hhead]
    rfl
  · obtain ⟨c, ds, d, hdecimal, hc⟩ := decimal_head hpos
    have hvalue : valueFrom (d + 1) ds = n := by
      have hwhole := value_decimal n
      rw [hdecimal] at hwhole
      unfold value at hwhole
      rw [List.foldl_cons, hc, Option.getD_some, Nat.mul_zero, Nat.zero_add] at hwhole
      exact hwhole
    have hds : ∀ x ∈ ds, isDigit x = true := fun x hx =>
      isDigit_of_mem_decimal (n := n) (by rw [hdecimal]; exact List.mem_cons_of_mem c hx)
    have hread := readDigits_valueFrom hds hrest.stops_isDigit (d + 1) (by omega)
    rw [hdecimal, List.cons_append]
    simp only [readUnsigned, hc, hread, hhead, hvalue]
    rfl

/-- The digits of a number start with a digit. -/
theorem starts_decimal (n : Nat) : ∃ c t, decimal n = c :: t ∧ isDigit c = true := by
  cases h : decimal n with
  | nil => exact absurd h (decimal_ne_nil n)
  | cons c t => exact ⟨c, t, rfl, isDigit_of_mem_decimal (by rw [h]; exact List.mem_cons_self)⟩

theorem readNumber_natural {n : Nat} (h : n ≤ maxNatural) (hrest : Ends rest) :
    readNumber (decimal n ++ rest) = .ok (.natural n, rest) := by
  have hread := readUnsigned_decimal false h hrest
  rw [readAfterInteger_end false n hrest] at hread
  obtain ⟨c, t, hdecimal, hc⟩ := starts_decimal n
  rw [hdecimal, List.cons_append] at hread ⊢
  unfold readNumber
  split
  · rename_i heq
    rw [(List.cons.inj heq).1] at hc
    cases hc
  · exact hread

theorem readNumber_negative {n : Nat} (hpos : 0 < n) (h : n ≤ signLimit 64) (hrest : Ends rest) :
    readNumber ('-' :: (decimal n ++ rest)) = .ok (.negative n, rest) := by
  have hmax : n ≤ maxNatural := by
    have hlimit : signLimit 64 ≤ maxNatural := by decide
    omega
  have hread := readUnsigned_decimal true hmax hrest
  rw [readAfterInteger_end true n hrest, if_pos rfl, if_neg (by omega)] at hread
  exact hread

/-- An integer of 64 bits. -/
theorem settles_integer {n : Int} (h : FitsSigned 64 n) :
    Settles readInt least (Value.integer n).chars (.ok n) := by
  intro depth _ gap rest hgap hrest
  obtain ⟨hlow, hhigh⟩ := h
  unfold readInt
  by_cases hneg : n < 0
  · have hchars : (Value.integer n).chars = '-' :: decimal n.natAbs := by
      unfold Value.integer
      rw [if_pos hneg]
      rfl
    have hstarts : Starts (Value.integer n).chars := ⟨_, _, hchars, rfl⟩
    rw [hstarts.skipBlank hgap, hchars, List.cons_append]
    simp only [true_or, if_true, readIntToken, readNumber_negative (n := n.natAbs) (by omega)
      (by omega) hrest, bind, Except.bind]
    have hn : -(n.natAbs : Int) = n := by omega
    rw [hn]
    rfl
  · have hchars : (Value.integer n).chars = decimal n.toNat := by
      unfold Value.integer
      rw [if_neg hneg]
      rfl
    have hmax : n.toNat ≤ maxNatural := by
      have hlimit : signLimit 64 ≤ maxNatural := by decide
      omega
    have hsmall : n.toNat < signLimit 64 := by omega
    have hn : (n.toNat : Int) = n := by omega
    have hread := readNumber_natural hmax hrest
    obtain ⟨c, t, hdecimal, hc⟩ := starts_decimal n.toNat
    have hstarts : Starts (Value.integer n).chars :=
      ⟨c, t, hchars.trans hdecimal, isEnd_of_isDigit hc⟩
    rw [hstarts.skipBlank hgap, hchars]
    rw [hdecimal, List.cons_append] at hread ⊢
    simp only [hc, or_true, if_true, readIntToken, hread, bind, Except.bind, if_pos hsmall, hn]
    rfl

/-! ### Elements made of others -/

theorem itemChars_eq (vs : List Value) : itemChars vs = joined [','] (vs.map Value.chars) := by
  induction vs with
  | nil => simp [itemChars, joined]
  | cons v vs ih =>
    cases vs with
    | nil => simp [itemChars, joined]
    | cons w vs => simp [itemChars, joined, ih]

/-- A list that is written stands without blanks. -/
theorem chars_list (vs : List Value) :
    (Value.list vs).chars = listText [] (vs.map fun v => .bare v.chars) := by
  have htext : (vs.map fun v => (Padded.bare v.chars).text) = vs.map Value.chars := by
    simp [Padded.bare, Padded.text]
  rw [Value.chars, itemChars_eq]
  unfold listText
  rw [List.map_map]
  simp only [Function.comp_def, htext, List.nil_append, List.cons_append]

/-- A member that is written, with its key escaped. -/
def Member.written (m : String × Value) : Member :=
  ⟨.bare (m.1.toList.flatMap escaped), .bare m.2.chars⟩

theorem Member.text_written (m : String × Value) :
    (Member.written m).text = stringChars m.1 ++ ':' :: m.2.chars := by
  simp [Member.written, Member.text, Padded.bare, Padded.text, stringChars]

theorem memberChars_eq (ms : List (String × Value)) :
    memberChars ms = joined [','] (ms.map fun m => (Member.written m).text) := by
  induction ms with
  | nil => simp [memberChars, joined]
  | cons m ms ih =>
    cases ms with
    | nil => simp [memberChars, joined, Member.text_written]
    | cons m' ms =>
      rw [memberChars, ih]
      simp [joined, Member.text_written]

/-- An object that is written stands without blanks. -/
theorem chars_object (ms : List (String × Value)) :
    (Value.object ms).chars = objectText [] (ms.map Member.written) := by
  rw [Value.chars, memberChars_eq]
  unfold objectText
  rw [List.map_map]
  rfl

theorem settles_written_list {f : α → Value} {l : List α}
    (h : ∀ a ∈ l, Starts (f a).chars ∧ Settles r least (f a).chars (.ok a)) :
    Settles (listOf r) (least + 2) (Value.listOf f l).chars (.ok l) := by
  have hitems : ∀ q ∈ l.map fun a => (Padded.bare (f a).chars, (.ok a : Except Fault α)),
      Starts q.1.body ∧ Settles r least q.1.body q.2 := by
    intro q hq
    obtain ⟨a, ha, rfl⟩ := List.mem_map.1 hq
    exact h a ha
  have hread : (l.map fun a => (Padded.bare (f a).chars, (.ok a : Except Fault α))).map (·.2) =
      l.map .ok := List.map_map
  have hlist := settles_listOf hitems blank_nil
  rw [(gathered_eq_ok 0).2 hread, List.map_map] at hlist
  unfold Value.listOf
  rw [chars_list, List.map_map]
  exact hlist

theorem settles_null : Settles (optional r) least Value.null.chars (.ok none) :=
  settles_optional_null

theorem settles_written_optional {f : α → Value} {o : Option α}
    (h : ∀ a ∈ o, Starts (f a).chars ∧ (f a).chars.head? ≠ some 'n' ∧
      Settles r least (f a).chars (.ok a)) :
    Settles (optional r) least (Value.optional f o).chars (.ok o) := by
  cases o with
  | none => exact settles_null
  | some a =>
    obtain ⟨hstarts, hnull, hsettles⟩ := h a rfl
    exact hsettles.optional hstarts hnull

theorem settles_optional_text (o : Option String) :
    Settles (optional readText) least (Value.optional .text o).chars (.ok o) :=
  settles_written_optional fun k _ =>
    ⟨starts_text k, by simp [Value.chars, stringChars], settles_text k⟩

/-! ### Structures -/

/-- The keys of the fields, with the other keys for each of them. -/
def Shape.keys (sh : Shape α) : List String := sh.fields.flatMap fun f => f.name :: f.aliases

theorem nodup_names {fields : List (Field α)}
    (h : (fields.flatMap fun f => f.name :: f.aliases).Nodup) : (fields.map (·.name)).Nodup := by
  refine h.sublist ?_
  clear h
  induction fields with
  | nil => exact .slnil
  | cons f fields ih => exact .cons_cons f.name (ih.trans (List.sublist_append_right _ _))

theorem find?_name {fields : List (Field α)}
    (h : (fields.flatMap fun f => f.name :: f.aliases).Nodup) {f : Field α} (hf : f ∈ fields) :
    fields.find? (fun g => g.name = f.name ∨ f.name ∈ g.aliases) = some f := by
  induction fields with
  | nil => cases hf
  | cons g fields ih =>
    rw [List.flatMap_cons, List.nodup_append] at h
    obtain ⟨_, hrest, hne⟩ := h
    rcases List.mem_cons.1 hf with rfl | hf
    · exact List.find?_cons_of_pos (by simp)
    · have hmem : f.name ∈ fields.flatMap fun f => f.name :: f.aliases :=
        List.mem_flatMap.2 ⟨f, hf, List.mem_cons_self⟩
      have hother : ¬ (g.name = f.name ∨ f.name ∈ g.aliases) := by
        rintro (heq | halias)
        · exact hne _ List.mem_cons_self _ hmem heq
        · exact hne _ (List.mem_cons_of_mem _ halias) _ hmem rfl
      rw [List.find?_cons_of_neg (by simpa using hother)]
      exact ih hrest hf

/-- What has been written for the field reads as this change of the structure. -/
def Field.Reads (least : Nat) (f : Field α) (w : Value × (α → α)) : Prop :=
  Settles f.read least w.1.chars (.ok w.2)

/-- The members of some fields, with what has been written for them. -/
def written (fields : List (Field α)) (ws : List (Value × (α → α))) : List (String × Value) :=
  fields.zipWith (fun f w => (f.name, w.1)) ws

theorem membersRead_written {sh : Shape α} (hsh : sh.keys.Nodup) {fields : List (Field α)}
    {ws : List (Value × (α → α))} (h : List.Forall₂ (Field.Reads least) fields ws)
    (hsub : ∀ f ∈ fields, f ∈ sh.fields) (hnodup : (fields.map (·.name)).Nodup)
    {seen : List String} (hnew : ∀ f ∈ fields, f.name ∉ seen)
    (hall : ∀ f ∈ sh.fields, f.name ∈ seen ∨ f ∈ fields) (a : α) :
    MembersRead sh least ((written fields ws).map Member.written) a seen
      (.ok (ws.foldl (fun a w => w.2 a) a)) := by
  induction h generalizing seen a with
  | nil =>
    refine membersRead_nil ?_
    unfold Shape.missing?
    rw [Option.map_eq_none_iff, List.find?_eq_none]
    intro f hf
    have hmem := (hall f hf).resolve_right List.not_mem_nil
    simp [hmem]
  | @cons f w fields ws hf _ ih =>
    rw [List.map_cons, List.nodup_cons] at hnodup
    have hmem := List.mem_cons_self (a := f) (l := fields)
    have hkey := readString_of_spells (spells_escaped f.name.toList)
    have hnew' : ∀ g ∈ fields, g.name ∉ f.name :: seen := by
      intro g hg hseen
      rcases List.mem_cons.1 hseen with heq | hseen
      · exact hnodup.1 (heq ▸ List.mem_map_of_mem hg)
      · exact hnew g (List.mem_cons_of_mem f hg) hseen
    have hall' : ∀ g ∈ sh.fields, g.name ∈ f.name :: seen ∨ g ∈ fields := by
      intro g hg
      rcases hall g hg with hseen | hg
      · exact .inl (List.mem_cons_of_mem _ hseen)
      · rcases List.mem_cons.1 hg with rfl | hg
        · exact .inl List.mem_cons_self
        · exact .inr hg
    have hrest := ih (fun g hg => hsub g (List.mem_cons_of_mem f hg)) hnodup.2 hnew' hall' (w.2 a)
    exact hrest.known (m := Member.written (f.name, w.1)) hkey (find?_name hsh (hsub f hmem))
      (hnew f hmem) hf

/-- A structure with all of its fields written in their order. -/
theorem settles_written {sh : Shape α} (hsh : sh.keys.Nodup) {ws : List (Value × (α → α))}
    (h : List.Forall₂ (Field.Reads least) sh.fields ws) :
    Settles sh.reader (least + 2) (Value.object (written sh.fields ws)).chars
      (.ok (ws.foldl (fun a w => w.2 a) sh.blank)) := by
  have hmembers := membersRead_written hsh h (fun _ hf => hf) (nodup_names hsh)
    (fun _ _ => List.not_mem_nil) (fun _ hf => .inr hf) sh.blank
  rw [chars_object]
  exact hmembers.settles blank_nil

/-- A structure that has been written as a document. -/
theorem Settles.readDocument {sh : Shape α} {v : Value} {a : α}
    (h : Settles sh.reader least v.chars (.ok a)) (hleast : least ≤ maxDepth) :
    sh.readDocument v.render = .ok a := by
  have hread := h maxDepth hleast [] [] blank_nil ends_nil
  rw [List.nil_append, List.append_nil] at hread
  unfold Shape.readDocument Value.render
  rw [String.toList_ofList, hread]
  rfl

end PinLedger.Json
