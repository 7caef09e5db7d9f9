import PinLedger.Proofs.Sql.Reader

/-!
# PinLedger.Proofs.Sql.Quote

No text gets out of its quotes. What is written as a quoted text, as a name or as an array of texts
is read back whole, whatever it holds and whatever stands behind it. The readers read nothing else:
what they take from the front of a text is what is written for the value that they give.

* `Sql.readQuoted_eq_some_iff`, `Sql.readLiteral_eq_some_iff` — what is read as a quoted text
* `Sql.readName_eq_some_iff`, `Sql.readTextArray_eq_some_iff` — what is read as a name or an array
* `Sql.quotes_hold` — quoted texts, names and arrays are read back, and only they are read
-/

namespace PinLedger.Sql

open Text

/-! ### Quoted texts -/

theorem expect_eq_some_iff {word : String} {s rest : List Char} :
    expect word s = some rest ↔ s = word.toList ++ rest := by
  constructor
  · intro h
    unfold expect at h
    split at h
    case isTrue hword =>
      obtain ⟨after, rfl⟩ := List.isPrefixOf_iff_prefix.1 hword
      rw [List.drop_left] at h
      rw [Option.some.inj h]
    case isFalse => cases h
  · rintro rfl
    exact expect_self word rest

/-- What was read up to a quote is the doubled text, and no other quote stands behind it. -/
theorem readToQuote_eq_some {q : Char} {s t rest : List Char}
    (h : readToQuote q s = some (t, rest)) :
    s = doubled q t ++ q :: rest ∧ Stops (· == q) rest := by
  fun_induction readToQuote q s generalizing t rest with
  | case1 => cases h
  | case2 =>
    cases h
    exact ⟨rfl, stops_nil _⟩
  | case3 => cases h
  | case4 s ih =>
    obtain ⟨⟨t, rest⟩, hread, heq⟩ := Option.map_eq_some_iff.1 h
    cases heq
    obtain ⟨hs, hrest⟩ := ih hread
    exact ⟨by simp [doubled, hs], hrest⟩
  | case5 d s hd =>
    cases h
    exact ⟨rfl, stops_cons (beq_false_of_ne hd)⟩
  | case6 c d s hc ih =>
    obtain ⟨⟨t, rest⟩, hread, heq⟩ := Option.map_eq_some_iff.1 h
    cases heq
    obtain ⟨hs, hrest⟩ := ih hread
    exact ⟨by simp [doubled, hc, hs], hrest⟩

theorem readQuoted_eq_some_iff {q : Char} {s t rest : List Char} :
    readQuoted q s = some (t, rest) ↔ s = enclosed q t ++ rest ∧ Stops (· == q) rest := by
  constructor
  · intro h
    cases s with
    | nil => cases h
    | cons c s =>
      rw [readQuoted] at h
      split at h
      case isTrue hc =>
        obtain ⟨hs, hrest⟩ := readToQuote_eq_some h
        exact ⟨by simp [enclosed, hc, hs], hrest⟩
      case isFalse => cases h
  · rintro ⟨rfl, hrest⟩
    exact readQuoted_enclosed hrest t

theorem readLiteral_eq_some_iff {s rest : List Char} {t : String} :
    readLiteral s = some (t, rest) ↔ s = literal t ++ rest ∧ Stops (· == '\'') rest := by
  constructor
  · intro h
    obtain ⟨⟨u, rest⟩, hread, heq⟩ := Option.bind_eq_some_iff.1 h
    cases heq
    obtain ⟨hs, hrest⟩ := readQuoted_eq_some_iff.1 hread
    refine ⟨?_, hrest⟩
    rw [hs, literal, String.toList_ofList]
  · rintro ⟨rfl, hrest⟩
    exact readLiteral_literal hrest t

/-! ### Rows -/

/-- A row that was read is the written items with separators between them. It ends behind an item,
where no separator stands. -/
theorem readItems_eq_some {α : Type} {sep : String} {item : Reader α} {write : α → List Char}
    {P : List Char → Prop}
    (hitem : ∀ {a s rest}, item s = some (a, rest) → s = write a ++ rest ∧ P rest) {n : Nat}
    {s rest : List Char} {as : List α} (h : readItems sep item n s = some (as, rest)) :
    as ≠ [] ∧ s = joined sep.toList (as.map write) ++ rest ∧ P rest ∧ expect sep rest = none := by
  induction n generalizing s as with
  | zero => cases h
  | succ n ih =>
    obtain ⟨⟨a, s₁⟩, hfirst, h⟩ := Option.bind_eq_some_iff.1 h
    obtain ⟨hs, hP⟩ := hitem hfirst
    dsimp only at h
    cases hsep : expect sep s₁ with
    | none =>
      rw [hsep] at h
      cases h
      exact ⟨List.cons_ne_nil a [], hs, hP, hsep⟩
    | some s₂ =>
      rw [hsep] at h
      obtain ⟨⟨bs, rest'⟩, hrow, heq⟩ := Option.bind_eq_some_iff.1 h
      cases heq
      obtain ⟨hne, hs₂, hrest, hend⟩ := ih hrow
      obtain ⟨b, bs, rfl⟩ := List.exists_cons_of_ne_nil hne
      refine ⟨List.cons_ne_nil a _, ?_, hrest, hend⟩
      rw [hs, expect_eq_some_iff.1 hsep, hs₂]
      simp [joined]

theorem stops_of_expect {word : String} {c : Char} {rest : List Char} (hword : word.toList = [c])
    (h : expect word rest = none) : Stops (· == c) rest := by
  intro d hd
  refine beq_false_of_ne fun hdc => ?_
  obtain ⟨s, rfl⟩ := List.head?_eq_some_iff.1 hd
  have hsome : expect word (d :: s) = some s := by
    rw [expect_eq_some_iff, hword, hdc]
    rfl
  rw [h] at hsome
  cases hsome

/-- A name is read as parts in quotes with dots between them. -/
theorem readName_eq_some_iff {s rest : List Char} {ps : List (List Char)} :
    readName s = some (ps, rest) ↔ ps ≠ [] ∧ s = joined ['.'] (ps.map (enclosed '"')) ++ rest ∧
      Stops (· == '"') rest ∧ Stops (· == '.') rest := by
  constructor
  · intro h
    obtain ⟨hne, hs, hquote, hend⟩ := readItems_eq_some readQuoted_eq_some_iff.1 h
    exact ⟨hne, hs, hquote, stops_of_expect rfl hend⟩
  · rintro ⟨hne, rfl, hquote, hdot⟩
    have hsep : ['.'] = ".".toList := rfl
    rw [hsep]
    exact readItems_row (by simp [enclosed]) (fun p r => readQuoted_enclosed (stops_cons rfl) p)
      (readQuoted_enclosed hquote) (expect_of_stops rfl hdot) hne

theorem readTextArray_eq_some_iff {s rest : List Char} {items : List String} :
    readTextArray s = some (items, rest) ↔ s = textArray items ++ rest := by
  constructor
  · intro h
    obtain ⟨s₁, hopen, h⟩ := Option.bind_eq_some_iff.1 h
    cases hclose : expect "]::text[]" s₁ with
    | some s₂ =>
      simp only [hclose] at h
      cases h
      rw [expect_eq_some_iff.1 hopen, expect_eq_some_iff.1 hclose]
      exact (List.append_assoc _ _ _).symm
    | none =>
      simp only [hclose] at h
      obtain ⟨⟨items', s₂⟩, hrow, h⟩ := Option.bind_eq_some_iff.1 h
      obtain ⟨s₃, hend, heq⟩ := Option.bind_eq_some_iff.1 h
      cases heq
      obtain ⟨_, hs₁, _, _⟩ := readItems_eq_some readLiteral_eq_some_iff.1 hrow
      have hs₂ : s₂ = "]::text[]".toList ++ rest := expect_eq_some_iff.1 hend
      unfold textArray
      rw [expect_eq_some_iff.1 hopen, hs₁, hs₂, List.append_assoc, List.append_assoc]
      rfl
  · rintro rfl
    exact readTextArray_textArray items rest

/-! ### Quotes hold -/

/-- A text in single quotes is read back as that text, and the reader stops exactly behind its last
quote; so is a name as its trimmed parts, and an array of texts as the texts in it, be there none. No
other text is read as a text in quotes, a name or an array. -/
theorem quotes_hold :
    (∀ (s : String) (rest : List Char), Stops (· == '\'') rest →
      readLiteral (literal s ++ rest) = some (s, rest)) ∧
    (∀ (name : String) (rest : List Char), Stops (· == '"') rest → Stops (· == '.') rest →
      readName (identifier name ++ rest) = some ((parts '.' name.toList).map trim, rest)) ∧
    (∀ (items : List String) (rest : List Char),
      readTextArray (textArray items ++ rest) = some (items, rest)) ∧
    (∀ text s rest, readLiteral text = some (s, rest) →
      text = literal s ++ rest ∧ Stops (· == '\'') rest) ∧
    (∀ text ps rest, readName text = some (ps, rest) → ps ≠ [] ∧
      text = joined ['.'] (ps.map (enclosed '"')) ++ rest ∧
        Stops (· == '"') rest ∧ Stops (· == '.') rest) ∧
    ∀ text items rest, readTextArray text = some (items, rest) → text = textArray items ++ rest := by
  refine ⟨?_, ?_, ?_, ?_, ?_, ?_⟩
  · intro s rest hrest
    exact readLiteral_literal hrest s
  · intro name rest hquote hdot
    exact readName_identifier hquote hdot name
  · exact readTextArray_textArray
  · intro text s rest h
    exact readLiteral_eq_some_iff.1 h
  · intro text ps rest h
    exact readName_eq_some_iff.1 h
  · intro text items rest h
    exact readTextArray_eq_some_iff.1 h

/-- Texts that try to end their quotes: with quotes at both ends, in a row and beside dots and
commas, before rests that look like more of the same. -/
theorem quotes_hold_contrived :
    (Stops (· == '\'') ",''".toList ∧
      readLiteral (literal "'', ''); DROP TABLE views; --'" ++ ",''".toList) =
        some ("'', ''); DROP TABLE views; --'", ",''".toList)) ∧
    (Stops (· == '"') " .\"".toList ∧ Stops (· == '.') " .\"".toList ∧
      readName (identifier "\" a\"\".\".. b \"" ++ " .\"".toList) =
        some (["\" a\"\"".toList, "\"".toList, [], "b \"".toList], " .\"".toList)) ∧
    readTextArray (textArray [] ++ "'".toList) = some ([], "'".toList) ∧
    readTextArray (textArray ["", "','", "", "]::text[]"] ++ "'".toList) =
      some (["", "','", "", "]::text[]"], "'".toList) := by
  obtain ⟨hliteral, hname, harray, _⟩ := quotes_hold
  have hquote : Stops (· == '"') " .\"".toList := stops_cons rfl
  have hdot : Stops (· == '.') " .\"".toList := stops_cons rfl
  exact ⟨⟨stops_cons rfl, hliteral _ _ (stops_cons rfl)⟩,
    ⟨hquote, hdot, hname "\" a\"\".\".. b \"" _ hquote hdot⟩, harray _ _, harray _ _⟩

end PinLedger.Sql
