import PinLedger.Json.Reader
import PinLedger.Proofs.Json.Token

/-!
# PinLedger.Proofs.Json.Skip

An element that nobody asked for is skipped as a whole, whatever it is and however deep.

* `Skips` — with enough fuel the element is skipped, and no more than it
* `skips_of_isValue` — every element of the grammar is
-/

namespace PinLedger.Json

open Text

/-- The element is skipped as a whole, with twice as much fuel as it has characters. -/
def Skips (s : List Char) : Prop :=
  ∀ fuel, 2 * s.length ≤ fuel → ∀ gap rest, Blank gap → Ends rest →
    skipElement fuel (gap ++ (s ++ rest)) = .ok rest

variable {s rest : List Char}

theorem Padded.length_text (p : Padded) :
    p.text.length = p.before.length + p.body.length + p.after.length := by
  simp only [text, List.length_append]
  omega

theorem Member.length_text (m : Member) :
    m.text.length = m.key.before.length + m.key.body.length + m.key.after.length +
      m.value.text.length + 3 := by
  simp only [text, List.length_append, List.length_cons]
  omega

/-- An element with blanks around it is skipped up to the blanks after it. -/
theorem Skips.padded {p : Padded} (h : Skips p.body) {fuel : Nat}
    (hfuel : 2 * p.body.length ≤ fuel) {gap : List Char} (hgap : Blank gap) (hrest : Ends rest) :
    skipElement fuel (gap ++ (p.text ++ rest)) = .ok (p.after ++ rest) := by
  have hskip := h fuel hfuel (gap ++ p.before) (p.after ++ rest) (hgap.append p.blank_before)
    (hrest.append p.blank_after)
  unfold Padded.text
  simp only [List.append_assoc] at hskip ⊢
  exact hskip

theorem Starts.padded {p : Padded} (h : Starts p.body) {gap : List Char} (hgap : Blank gap)
    (rest : List Char) :
    ∃ c t, p.body = c :: t ∧ isEnd c = false ∧
      Json.skipBlank (gap ++ (p.text ++ rest)) = c :: (t ++ (p.after ++ rest)) := by
  have hskip := h.skipBlank (hgap.append p.blank_before) (p.after ++ rest)
  obtain ⟨c, t, hbody, hc⟩ := h
  refine ⟨c, t, hbody, hc, ?_⟩
  rw [hbody] at hskip
  unfold Padded.text
  rw [hbody]
  simp only [List.append_assoc] at hskip ⊢
  exact hskip

theorem isEnd_eq_false {c : Char} (h : isEnd c = false) :
    isBlank c = false ∧ c ≠ ',' ∧ c ≠ ']' ∧ c ≠ '\x7d' := by
  simpa only [isEnd, Bool.or_eq_false_iff, decide_eq_false_iff_not, and_assoc] using h

theorem Starts.length_pos (h : Starts s) : 0 < s.length := by
  obtain ⟨c, t, rfl, _⟩ := h
  simp

theorem skipBlank_skipBlank (s : List Char) : skipBlank (skipBlank s) = skipBlank s := by
  induction s with
  | nil => rfl
  | cons c s ih =>
    cases hc : isBlank c with
    | true => rw [show skipBlank (c :: s) = skipBlank s from List.dropWhile_cons_of_pos hc, ih]
    | false => rw [skipBlank_cons hc, skipBlank_cons hc]

theorem skipElement_skipBlank (fuel : Nat) (s : List Char) :
    skipElement fuel (skipBlank s) = skipElement fuel s := by
  cases fuel with
  | zero => rfl
  | succ fuel =>
    unfold skipElement
    rw [skipBlank_skipBlank]

theorem skipMember_skipBlank (fuel : Nat) (s : List Char) :
    skipMember fuel (skipBlank s) = skipMember fuel s := by
  cases fuel with
  | zero => rfl
  | succ fuel =>
    unfold skipMember
    rw [skipBlank_skipBlank]

/-! ### Lists -/

theorem skipListRest_item {p : Padded} (hstarts : Starts p.body) (hskips : Skips p.body)
    {fuel : Nat} (hfuel : 2 * p.body.length ≤ fuel) {gap : List Char} (hgap : Blank gap)
    (hrest : Ends rest) (first : Bool) :
    skipListRest (fuel + 1) first (gap ++ ((if first then p.text else ',' :: p.text) ++ rest)) =
      skipListRest fuel false (p.after ++ rest) := by
  cases first with
  | true =>
    obtain ⟨c, t, _, hc, hskip⟩ := hstarts.padded hgap rest
    obtain ⟨_, _, hclose, _⟩ := isEnd_eq_false hc
    have hone := hskips.padded hfuel hgap hrest
    rw [← skipElement_skipBlank, hskip] at hone
    simp only [if_true, skipListRest, hskip, if_neg hclose, hone]
    rfl
  | false =>
    have hone := hskips.padded hfuel blank_nil hrest
    simp only [Bool.false_eq_true, if_false, List.cons_append, skipListRest,
      skipBlank_append hgap, skipBlank_cons (show isBlank ',' = false from rfl)]
    rw [List.nil_append] at hone
    simp only [hone]
    rfl

theorem skipListRest_append {items : List Padded}
    (h : ∀ p ∈ items, Starts p.body ∧ Skips p.body) (fuel : Nat) (first : Bool)
    (hfuel : 2 * (separated first (items.map Padded.text)).length + 2 ≤ fuel)
    {gap : List Char} (hgap : Blank gap) (rest : List Char) :
    skipListRest fuel first
      (gap ++ (separated first (items.map Padded.text) ++ ']' :: rest)) = .ok rest := by
  induction items generalizing fuel first gap with
  | nil =>
    cases fuel with
    | zero => omega
    | succ fuel =>
      simp only [List.map_nil, separated, List.nil_append, skipListRest, skipBlank_append hgap]
      rfl
  | cons p items ih =>
    obtain ⟨hstarts, hskips⟩ := h p List.mem_cons_self
    have hpos := hstarts.length_pos
    have hlen := p.length_text
    cases fuel with
    | zero => omega
    | succ fuel =>
      simp only [List.map_cons, separated, List.length_append] at hfuel ⊢
      have hlead : p.text.length ≤ (if first then p.text else ',' :: p.text).length := by
        split
        · exact Nat.le_refl _
        · exact Nat.le_succ _
      rw [List.append_assoc, skipListRest_item hstarts hskips (by omega) hgap
        (ends_separated rfl _ _)]
      exact ih (fun q hq => h q (List.mem_cons_of_mem p hq)) fuel false (by omega) p.blank_after

theorem skips_list {gap : List Char} (hgap : Blank gap) {items : List Padded}
    (h : ∀ p ∈ items, Starts p.body ∧ Skips p.body) : Skips (listText gap items) := by
  intro fuel hfuel gap' rest hgap' _
  unfold listText at hfuel ⊢
  rw [joined_eq_separated] at hfuel ⊢
  simp only [List.length_cons, List.length_append, List.length_nil] at hfuel
  cases fuel with
  | zero => omega
  | succ fuel =>
    simp only [skipElement, List.cons_append, skipBlank_append hgap',
      skipBlank_cons (show isBlank '[' = false from rfl)]
    have hlist := skipListRest_append h fuel true (by omega) hgap rest
    simpa [show isDigit '[' = false from rfl] using hlist

/-! ### Objects -/

theorem readColon_append {gap : List Char} (hgap : Blank gap) (rest : List Char) :
    readColon (gap ++ ':' :: rest) = .ok rest := by
  unfold readColon
  rw [skipBlank_append hgap]
  rfl

theorem skipMember_append {m : Member} (hkey : IsString m.key.body) (hskips : Skips m.value.body)
    {fuel : Nat} (hfuel : 2 * m.value.body.length ≤ fuel) {gap : List Char} (hgap : Blank gap)
    (hrest : Ends rest) :
    skipMember (fuel + 1) (gap ++ (m.text ++ rest)) =
      skipObjectRest fuel false (m.value.after ++ rest) := by
  have hone := hskips.padded hfuel blank_nil hrest
  rw [List.nil_append] at hone
  unfold Member.text
  simp only [List.append_assoc, List.cons_append, skipMember, skipBlank_append hgap,
    skipBlank_append m.key.blank_before, skipBlank_cons (show isBlank '"' = false from rfl),
    if_true, skipString_append hkey, bind, Except.bind, readColon_append m.key.blank_after, hone]

theorem skipObjectRest_member {m : Member} (hkey : IsString m.key.body)
    (hskips : Skips m.value.body) {fuel : Nat} (hfuel : 2 * m.value.body.length ≤ fuel)
    {gap : List Char} (hgap : Blank gap) (hrest : Ends rest) (first : Bool) :
    skipObjectRest (fuel + 2) first (gap ++ ((if first then m.text else ',' :: m.text) ++ rest)) =
      skipObjectRest fuel false (m.value.after ++ rest) := by
  cases first with
  | true =>
    have hone := skipMember_append hkey hskips hfuel hgap hrest
    have hskip : skipBlank (gap ++ (m.text ++ rest)) =
        '"' :: (m.key.body ++ '"' :: (m.key.after ++ ':' :: m.value.text) ++ rest) := by
      unfold Member.text
      rw [skipBlank_append hgap]
      simp only [List.append_assoc, List.cons_append, skipBlank_append m.key.blank_before]
      rfl
    rw [← skipMember_skipBlank, hskip] at hone
    simp only [if_true, skipObjectRest, hskip]
    exact hone
  | false =>
    have hone := skipMember_append hkey hskips hfuel blank_nil hrest
    simp only [Bool.false_eq_true, if_false, List.cons_append, skipObjectRest,
      skipBlank_append hgap, skipBlank_cons (show isBlank ',' = false from rfl)]
    exact hone

theorem skipObjectRest_append {members : List Member}
    (h : ∀ m ∈ members, IsString m.key.body ∧ Skips m.value.body) (fuel : Nat) (first : Bool)
    (hfuel : 2 * (separated first (members.map Member.text)).length + 2 ≤ fuel)
    {gap : List Char} (hgap : Blank gap) (rest : List Char) :
    skipObjectRest fuel first
      (gap ++ (separated first (members.map Member.text) ++ '\x7d' :: rest)) = .ok rest := by
  induction members generalizing fuel first gap with
  | nil =>
    cases fuel with
    | zero => omega
    | succ fuel =>
      simp only [List.map_nil, separated, List.nil_append, skipObjectRest, skipBlank_append hgap]
      rfl
  | cons m members ih =>
    obtain ⟨hkey, hskips⟩ := h m List.mem_cons_self
    have hlen := m.length_text
    have hvalue := m.value.length_text
    simp only [List.map_cons, separated, List.length_append] at hfuel ⊢
    have hlead : m.text.length ≤ (if first then m.text else ',' :: m.text).length := by
      split
      · exact Nat.le_refl _
      · exact Nat.le_succ _
    obtain ⟨fuel, rfl⟩ : ∃ k, fuel = k + 2 := ⟨fuel - 2, by omega⟩
    rw [List.append_assoc, skipObjectRest_member hkey hskips (by omega) hgap
      (ends_separated rfl _ _)]
    exact ih (fun q hq => h q (List.mem_cons_of_mem m hq)) fuel false (by omega) m.value.blank_after

theorem skips_object {gap : List Char} (hgap : Blank gap) {members : List Member}
    (h : ∀ m ∈ members, IsString m.key.body ∧ Skips m.value.body) :
    Skips (objectText gap members) := by
  intro fuel hfuel gap' rest hgap' _
  unfold objectText at hfuel ⊢
  rw [joined_eq_separated] at hfuel ⊢
  simp only [List.length_cons, List.length_append, List.length_nil] at hfuel
  cases fuel with
  | zero => omega
  | succ fuel =>
    simp only [skipElement, List.cons_append, skipBlank_append hgap',
      skipBlank_cons (show isBlank '\x7b' = false from rfl)]
    have hobject := skipObjectRest_append h fuel true (by omega) hgap rest
    simpa [show isDigit '\x7b' = false from rfl] using hobject

/-! ### Elements -/

theorem skips_number (h : IsNumber s) : Skips s := by
  intro fuel hfuel gap rest hgap hrest
  have hskip := skipNumber_append h hrest
  obtain ⟨c, t, rfl, hc⟩ := h.starts
  have hend : isEnd c = false := by
    rcases hc with rfl | hc
    · rfl
    · exact isEnd_of_isDigit hc
  cases fuel with
  | zero => simp at hfuel
  | succ fuel =>
    have hblank := (isEnd_eq_false hend).1
    have hother : c ≠ 'n' ∧ c ≠ 't' ∧ c ≠ 'f' := by
      refine ⟨?_, ?_, ?_⟩ <;> rintro rfl <;> simp [isDigit, digitValue?] at hc
    simp only [List.cons_append] at hskip
    simp only [skipElement, List.cons_append, skipBlank_append hgap, skipBlank_cons hblank,
      if_neg hother.1, if_neg hother.2.1, if_neg hother.2.2, if_pos hc, hskip]
    rfl

theorem skips_word {c : Char} {word : List Char} (hc : c = 'n' ∧ word = "ull".toList ∨
    c = 't' ∧ word = "rue".toList ∨ c = 'f' ∧ word = "alse".toList) : Skips (c :: word) := by
  intro fuel hfuel gap rest hgap _
  cases fuel with
  | zero => simp at hfuel
  | succ fuel =>
    have hword := readWord_append word rest
    have hblank : isBlank c = false := by
      rcases hc with ⟨rfl, _⟩ | ⟨rfl, _⟩ | ⟨rfl, _⟩ <;> rfl
    simp only [skipElement, List.cons_append, skipBlank_append hgap, skipBlank_cons hblank]
    rcases hc with ⟨rfl, rfl⟩ | ⟨rfl, rfl⟩ | ⟨rfl, rfl⟩
    · rw [if_pos rfl, hword]
      rfl
    · rw [if_neg (by decide), if_pos rfl, hword]
      rfl
    · rw [if_neg (by decide), if_neg (by decide), if_pos rfl, hword]
      rfl

theorem skips_text (h : IsString s) : Skips ('"' :: (s ++ ['"'])) := by
  intro fuel hfuel gap rest hgap _
  cases fuel with
  | zero => simp at hfuel
  | succ fuel =>
    simp only [skipElement, List.cons_append, List.append_assoc, List.nil_append,
      skipBlank_append hgap, skipBlank_cons (show isBlank '"' = false from rfl),
      skipString_append h]
    rfl

/-- By induction on the grammar: the parts of an element are shorter than it, so that there is
fuel for them. -/
theorem skips_of_isValue (h : IsValue s) : Skips s := by
  induction h with
  | null => exact skips_word (.inl ⟨rfl, rfl⟩)
  | yes => exact skips_word (.inr (.inl ⟨rfl, rfl⟩))
  | no => exact skips_word (.inr (.inr ⟨rfl, rfl⟩))
  | number h => exact skips_number h
  | text h => exact skips_text h
  | list hgap h ih => exact skips_list hgap fun p hp => ⟨(h p hp).starts, ih p hp⟩
  | object hgap hkeys h ih => exact skips_object hgap fun m hm => ⟨hkeys m hm, ih m hm⟩

theorem skipValue_append {p : Padded} (h : IsValue p.body) (hrest : Ends rest) :
    skipValue (p.text ++ rest) = .ok (p.after ++ rest) := by
  have hlen := p.length_text
  have hfuel : 2 * p.body.length ≤ 2 * (p.text ++ rest).length + 2 := by
    rw [List.length_append]
    omega
  exact (skips_of_isValue h).padded hfuel blank_nil hrest

end PinLedger.Json
