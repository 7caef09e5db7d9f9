import PinLedger.Proofs.Json.Skip

/-!
# PinLedger.Proofs.Json.Reader

The readers of typed elements on the grammar. What comes of an element depends neither on the blanks
around it nor on what follows, and not on the depth as long as that is enough.

* `Settles`, `Steady` — what an element reads as, wherever it stands
* `steady_readInt`, `steady_readBool`, `steady_readText`, `steady_readInstant` — plain elements
* `Settles.optional`, `settles_listOf` — elements made of others
-/

namespace PinLedger.Json

open Text

variable {α : Type} {r : Reader α} {least : Nat} {s rest gap : List Char} {x : Except Fault α}

/-- The element reads as `x`, wherever it stands, if so many containers may be nested. -/
def Settles (r : Reader α) (least : Nat) (s : List Char) (x : Except Fault α) : Prop :=
  ∀ depth, least ≤ depth → ∀ gap rest, Blank gap → Ends rest →
    r depth (gap ++ (s ++ rest)) = x.map (·, rest)

/-- Every element reads as something, wherever it stands. -/
def Steady (r : Reader α) (least : Nat) : Prop := ∀ s, IsValue s → ∃ x, Settles r least s x

theorem Settles.padded {p : Padded} (h : Settles r least p.body x) {depth : Nat}
    (hdepth : least ≤ depth) (hgap : Blank gap) (hrest : Ends rest) :
    r depth (gap ++ (p.text ++ rest)) = x.map (·, p.after ++ rest) := by
  have hread := h depth hdepth (gap ++ p.before) (p.after ++ rest) (hgap.append p.blank_before)
    (hrest.append p.blank_after)
  unfold Padded.text
  simp only [List.append_assoc] at hread ⊢
  exact hread

theorem Settles.mono {more : Nat} (h : Settles r least s x) (hle : least ≤ more) :
    Settles r more s x :=
  fun depth hdepth => h depth (Nat.le_trans hle hdepth)

/-! ### Elements of another kind -/

theorem number_head {c : Char} (h : c = '-' ∨ isDigit c = true) :
    c ≠ 'n' ∧ c ≠ 't' ∧ c ≠ 'f' ∧ c ≠ '"' ∧ c ≠ '[' ∧ c ≠ '\x7b' := by
  refine ⟨?_, ?_, ?_, ?_, ?_, ?_⟩ <;> rintro rfl <;> simp [isDigit, digitValue?] at h

/-- What is said of an element of another kind does not depend on what follows it. -/
theorem exists_misfit (expected : String) (h : IsValue s) :
    ∃ reason, ∀ rest, Ends rest → misfit expected (s ++ rest) = reason := by
  cases h with
  | null => exact ⟨_, fun rest _ => rfl⟩
  | yes => exact ⟨_, fun rest _ => rfl⟩
  | no => exact ⟨_, fun rest _ => rfl⟩
  | list _ _ => exact ⟨_, fun rest _ => rfl⟩
  | object _ _ _ => exact ⟨_, fun rest _ => rfl⟩
  | number h =>
    obtain ⟨y, hy⟩ := takes_readNumber h
    obtain ⟨c, t, rfl, hc⟩ := h.starts
    obtain ⟨hn, ht, hf, _⟩ := number_head hc
    cases y with
    | error reason =>
      refine ⟨reason, fun rest hrest => ?_⟩
      have hread := hy rest hrest
      rw [List.cons_append] at hread ⊢
      simp only [misfit, if_neg hn, if_neg ht, if_neg hf, if_pos hc, hread, Except.map]
    | ok n =>
      refine ⟨.mismatch (.invalidType n.found expected), fun rest hrest => ?_⟩
      have hread := hy rest hrest
      rw [List.cons_append] at hread ⊢
      simp only [misfit, if_neg hn, if_neg ht, if_neg hf, if_pos hc, hread, Except.map]
  | @text t h =>
    obtain ⟨y, hy⟩ := takes_readString h
    cases y with
    | error reason =>
      refine ⟨reason, fun rest _ => ?_⟩
      have hread := hy rest
      simp only [Except.map] at hread
      simp [misfit, isDigit, digitValue?, hread]
    | ok k =>
      refine ⟨.mismatch (.invalidType (.text k) expected), fun rest _ => ?_⟩
      have hread := hy rest
      simp only [Except.map] at hread
      simp [misfit, isDigit, digitValue?, hread]

/-- A reader that refuses the element. -/
theorem settles_misfit (expected : String) (h : IsValue s)
    (hr : ∀ depth gap rest, Blank gap →
      r depth (gap ++ (s ++ rest)) = here (misfit expected (s ++ rest))) :
    ∃ x, Settles r 0 s x := by
  obtain ⟨reason, hreason⟩ := exists_misfit expected h
  refine ⟨here reason, fun depth _ gap rest hgap hrest => ?_⟩
  rw [hr depth gap rest hgap, hreason rest hrest]
  rfl

/-! ### Plain elements -/

theorem takes_readIntToken (h : IsNumber s) : Takes readIntToken s := by
  obtain ⟨y, hy⟩ := takes_readNumber h
  cases y with
  | error reason =>
    refine ⟨.error reason, fun rest hrest => ?_⟩
    rw [readIntToken, hy rest hrest]
    rfl
  | ok n =>
    cases n with
    | natural k =>
      by_cases hk : k < signLimit 64
      · refine ⟨.ok k, fun rest hrest => ?_⟩
        rw [readIntToken, hy rest hrest]
        exact if_pos hk
      · refine ⟨.error (.mismatch (.invalidValue (.integer k) "i64")), fun rest hrest => ?_⟩
        rw [readIntToken, hy rest hrest]
        exact if_neg hk
    | negative k =>
      refine ⟨.ok (-k), fun rest hrest => ?_⟩
      rw [readIntToken, hy rest hrest]
      rfl
    | double minus b =>
      refine ⟨.error (.mismatch (.invalidType (Number.double minus b).found "i64")),
        fun rest hrest => ?_⟩
      rw [readIntToken, hy rest hrest]
      rfl

theorem steady_readInt : Steady readInt 0 := by
  intro s hs
  have hstarts := hs.starts
  have hmisfit : ∀ c t, s = c :: t → ¬ (c = '-' ∨ isDigit c = true) →
      ∃ x, Settles readInt 0 s x := by
    rintro c t rfl hc
    refine settles_misfit "i64" hs fun depth gap rest hgap => ?_
    unfold readInt
    rw [hstarts.skipBlank hgap]
    exact if_neg hc
  cases hs with
  | null => exact hmisfit _ _ rfl (by decide)
  | yes => exact hmisfit _ _ rfl (by decide)
  | no => exact hmisfit _ _ rfl (by decide)
  | text _ => exact hmisfit _ _ rfl (by decide)
  | list _ _ => exact hmisfit _ _ rfl (by decide)
  | object _ _ _ => exact hmisfit _ _ rfl (by decide)
  | number h =>
    obtain ⟨z, hz⟩ := takes_readIntToken h
    refine ⟨atHere z, fun depth _ gap rest hgap hrest => ?_⟩
    have hread := hz rest hrest
    obtain ⟨c, t, rfl, hc⟩ := h.starts
    unfold readInt
    rw [hstarts.skipBlank hgap]
    rw [List.cons_append] at hread ⊢
    simp only [if_pos hc, hread]
    cases z with
    | error reason => rfl
    | ok k => rfl

theorem steady_readBool : Steady readBool 0 := by
  intro s hs
  have hstarts := hs.starts
  have hmisfit : ∀ c t, s = c :: t → c ≠ 't' → c ≠ 'f' → ∃ x, Settles readBool 0 s x := by
    rintro c t rfl ht hf
    refine settles_misfit "a boolean" hs fun depth gap rest hgap => ?_
    unfold readBool
    rw [hstarts.skipBlank hgap]
    split
    · rename_i heq
      exact absurd (List.cons.inj heq).1 ht
    · rename_i heq
      exact absurd (List.cons.inj heq).1 hf
    · rfl
  cases hs with
  | null => exact hmisfit _ _ rfl (by decide) (by decide)
  | text _ => exact hmisfit _ _ rfl (by decide) (by decide)
  | list _ _ => exact hmisfit _ _ rfl (by decide) (by decide)
  | object _ _ _ => exact hmisfit _ _ rfl (by decide) (by decide)
  | number h =>
    obtain ⟨c, t, rfl, hc⟩ := h.starts
    obtain ⟨_, ht, hf, _⟩ := number_head hc
    exact hmisfit c t rfl ht hf
  | yes =>
    refine ⟨.ok true, fun depth _ gap rest hgap _ => ?_⟩
    unfold readBool
    rw [hstarts.skipBlank hgap]
    rfl
  | no =>
    refine ⟨.ok false, fun depth _ gap rest hgap _ => ?_⟩
    unfold readBool
    rw [hstarts.skipBlank hgap]
    rfl

/-- Strings, under any name by which messages ask for them. -/
theorem exists_readStringAs (expected : String) (hs : IsValue s) :
    ∃ y : Except Reason String, ∀ gap rest, Blank gap → Ends rest →
      readStringAs expected (gap ++ (s ++ rest)) = y.map (·, rest) := by
  have hstarts := hs.starts
  have hmisfit : ∀ c t, s = c :: t → c ≠ '"' → ∃ y : Except Reason String, ∀ gap rest, Blank gap →
      Ends rest → readStringAs expected (gap ++ (s ++ rest)) = y.map (·, rest) := by
    rintro c t rfl hc
    obtain ⟨reason, hreason⟩ := exists_misfit expected hs
    refine ⟨.error reason, fun gap rest hgap hrest => ?_⟩
    unfold readStringAs
    rw [hstarts.skipBlank hgap]
    split
    · rename_i heq
      exact absurd (List.cons.inj heq).1 hc
    · rw [hreason rest hrest]
      rfl
  cases hs with
  | null => exact hmisfit _ _ rfl (by decide)
  | yes => exact hmisfit _ _ rfl (by decide)
  | no => exact hmisfit _ _ rfl (by decide)
  | list _ _ => exact hmisfit _ _ rfl (by decide)
  | object _ _ _ => exact hmisfit _ _ rfl (by decide)
  | number h =>
    obtain ⟨c, t, rfl, hc⟩ := h.starts
    exact hmisfit c t rfl (number_head hc).2.2.2.1
  | @text t h =>
    obtain ⟨y, hy⟩ := takes_readString h
    refine ⟨y, fun gap rest hgap _ => ?_⟩
    unfold readStringAs
    rw [hstarts.skipBlank hgap]
    simp only [List.cons_append, List.append_assoc, List.nil_append]
    exact hy rest

theorem steady_readText : Steady readText 0 := by
  intro s hs
  obtain ⟨y, hy⟩ := exists_readStringAs "a string" hs
  refine ⟨atHere y, fun depth _ gap rest hgap hrest => ?_⟩
  unfold readText
  rw [hy gap rest hgap hrest]
  cases y with
  | error reason => rfl
  | ok k => rfl

theorem steady_readInstant : Steady readInstant 0 := by
  intro s hs
  obtain ⟨y, hy⟩ := exists_readStringAs "an RFC 3339 formatted date and time string" hs
  cases y with
  | error reason =>
    refine ⟨here reason, fun depth _ gap rest hgap hrest => ?_⟩
    unfold readInstant
    rw [hy gap rest hgap hrest]
    rfl
  | ok k =>
    refine ⟨atHere ((Instant.read k.toList).mapError .notAnInstant),
      fun depth _ gap rest hgap hrest => ?_⟩
    unfold readInstant
    rw [hy gap rest hgap hrest]
    simp only [Except.map, bind, Except.bind]
    cases Instant.read k.toList with
    | error f => rfl
    | ok t => rfl

/-! ### Elements made of others -/

theorem settles_optional_null : Settles (optional r) least ['n', 'u', 'l', 'l'] (.ok none) := by
  intro depth _ gap rest hgap _
  unfold optional
  rw [IsValue.null.starts.skipBlank hgap]
  rfl

theorem Settles.optional (h : Settles r least s x) (hs : Starts s) (hnull : s.head? ≠ some 'n') :
    Settles (optional r) least s (x.map some) := by
  intro depth hdepth gap rest hgap hrest
  have hread := h depth hdepth [] rest blank_nil hrest
  unfold Json.optional
  rw [hs.skipBlank hgap]
  obtain ⟨c, t, rfl, _⟩ := hs
  split
  · rename_i heq
    rw [(List.cons.inj heq).1] at hnull
    exact absurd rfl hnull
  · rw [List.nil_append] at hread
    rw [hread]
    cases x with
    | error f => rfl
    | ok a => rfl

theorem Steady.optional (h : Steady r least) : Steady (Json.optional r) least := by
  intro s hs
  by_cases hnull : s.head? = some 'n'
  · have hword : s = ['n', 'u', 'l', 'l'] := by
      cases hs with
      | null => rfl
      | yes => cases hnull
      | no => cases hnull
      | text _ => cases hnull
      | list _ _ => cases hnull
      | object _ _ _ => cases hnull
      | number h =>
        obtain ⟨c, t, rfl, hc⟩ := h.starts
        exact absurd (Option.some.inj hnull) (number_head hc).1
    rw [hword]
    exact ⟨_, settles_optional_null⟩
  · obtain ⟨x, hx⟩ := h s hs
    exact ⟨_, hx.optional hs.starts hnull⟩

/-! ### Lists -/

theorem nextItem_end (first : Bool) (hgap : Blank gap) (rest : List Char) :
    nextItem first (gap ++ ']' :: rest) = .ok (false, ']' :: rest) := by
  unfold nextItem
  rw [skipBlank_append hgap]
  rfl

theorem nextItem_item {p : Padded} (hp : Starts p.body) (first : Bool) (hgap : Blank gap)
    (rest : List Char) :
    nextItem first (gap ++ ((if first then p.text else ',' :: p.text) ++ rest)) =
      .ok (true, p.body ++ (p.after ++ rest)) := by
  cases first with
  | true =>
    obtain ⟨c, t, hbody, hc, hskip⟩ := hp.padded hgap rest
    unfold nextItem
    simp only [if_true, hskip, if_neg (isEnd_eq_false hc).2.2.1, hbody]
    rfl
  | false =>
    obtain ⟨c, t, hbody, hc, hskip⟩ := hp.padded blank_nil rest
    unfold nextItem
    rw [List.nil_append] at hskip
    simp only [Bool.false_eq_true, if_false, List.cons_append, skipBlank_append hgap,
      skipBlank_cons (show isBlank ',' = false from rfl), hskip,
      if_neg (isEnd_eq_false hc).2.2.1, hbody]
    rfl

/-- What comes of the elements of a list comes of the list, up to the first that fails. -/
def gathered : (i : Nat) → List (Except Fault α) → Except Fault (List α)
  | _, [] => .ok []
  | i, x :: xs => do
    let a ← within (.index i) x
    let as ← gathered (i + 1) xs
    .ok (a :: as)

theorem gathered_cons_ok (i : Nat) (a : α) (xs : List (Except Fault α)) :
    gathered i (.ok a :: xs) = (gathered (i + 1) xs).map (a :: ·) := by
  cases h : gathered (i + 1) xs with
  | error f => simp [gathered, within, Except.mapError, bind, Except.bind, h, Except.map]
  | ok as => simp [gathered, within, Except.mapError, bind, Except.bind, h, Except.map]

/-- A list that is read has been read in all of its elements. -/
theorem gathered_eq_ok {xs : List (Except Fault α)} {as : List α} (i : Nat) :
    gathered i xs = .ok as ↔ xs = as.map .ok := by
  induction xs generalizing i as with
  | nil =>
    cases as with
    | nil => simp [gathered]
    | cons a as => simp [gathered]
  | cons x xs ih =>
    cases x with
    | error f =>
      constructor
      · intro h
        cases h
      · intro h
        cases as with
        | nil => cases h
        | cons a as => cases (List.cons.inj h).1
    | ok a =>
      rw [gathered_cons_ok, map_eq_ok]
      constructor
      · rintro ⟨rest, hrest, rfl⟩
        rw [(ih (i + 1)).1 hrest]
        rfl
      · intro h
        cases as with
        | nil => cases h
        | cons a' as =>
          obtain ⟨ha, has⟩ := List.cons.inj h
          cases ha
          exact ⟨as, (ih (i + 1)).2 has, rfl⟩

/-- A list that cannot be read fails at the first of its elements that cannot be read. -/
theorem gathered_eq_error {xs : List (Except Fault α)} {f : Fault} (i : Nat) :
    gathered i xs = .error f ↔ ∃ (as : List α) (own : Fault) (back : List (Except Fault α)),
      xs = as.map .ok ++ .error own :: back ∧ f = own.under (.index (i + as.length)) := by
  induction xs generalizing i with
  | nil =>
    constructor
    · intro h
      cases h
    · rintro ⟨as, own, back, h, _⟩
      cases as <;> cases h
  | cons x xs ih =>
    cases x with
    | error own =>
      constructor
      · intro h
        cases h
        exact ⟨[], own, xs, rfl, rfl⟩
      · rintro ⟨as, own', back, h, rfl⟩
        cases as with
        | nil =>
          cases h
          rfl
        | cons a as => cases (List.cons.inj h).1
    | ok a =>
      have hstep : gathered i (.ok a :: xs) = .error f ↔ gathered (i + 1) xs = .error f := by
        rw [gathered_cons_ok]
        cases gathered (i + 1) xs with
        | error f' => exact Iff.rfl
        | ok as => simp [Except.map]
      have hindex : ∀ n, i + (n + 1) = i + 1 + n := fun n => by omega
      rw [hstep, ih]
      constructor
      · rintro ⟨as, own, back, rfl, rfl⟩
        exact ⟨a :: as, own, back, rfl, by rw [List.length_cons, hindex as.length]⟩
      · rintro ⟨as, own, back, h, rfl⟩
        cases as with
        | nil => cases (List.cons.inj h).1
        | cons a' as =>
          exact ⟨as, own, back, (List.cons.inj h).2, by rw [List.length_cons, hindex as.length]⟩

theorem readItems_append {l : List (Padded × Except Fault α)}
    (h : ∀ q ∈ l, Starts q.1.body ∧ Settles r least q.1.body q.2) {depth : Nat}
    (hdepth : least ≤ depth) {fuel : Nat} (hfuel : l.length < fuel) (i : Nat) (hgap : Blank gap)
    (rest : List Char) :
    readItems r depth fuel i
        (gap ++ (separated (i = 0) (l.map (·.1.text)) ++ ']' :: rest)) =
      (gathered i (l.map (·.2))).map (·, ']' :: rest) := by
  induction l generalizing fuel i gap with
  | nil =>
    cases fuel with
    | zero => cases hfuel
    | succ fuel =>
      simp only [List.map_nil, separated, List.nil_append, readItems, nextItem_end _ hgap]
      rfl
  | cons q l ih =>
    obtain ⟨p, x⟩ := q
    obtain ⟨hstarts, hsettles⟩ := h _ List.mem_cons_self
    cases fuel with
    | zero => cases hfuel
    | succ fuel =>
      have hafter : Ends (separated false (l.map (·.1.text)) ++ ']' :: rest) :=
        ends_separated rfl _ _
      have hone := hsettles depth hdepth [] _ blank_nil (hafter.append p.blank_after)
      have hrest := ih (fun q hq => h q (List.mem_cons_of_mem _ hq))
        (Nat.lt_of_succ_lt_succ hfuel) (i + 1) p.blank_after
      simp only [Nat.add_one_ne_zero, decide_false] at hrest
      rw [List.nil_append] at hone
      simp only [List.map_cons, separated, List.append_assoc, readItems,
        nextItem_item hstarts _ hgap, atHere, Except.mapError, bind, Except.bind, hone, gathered]
      cases x with
      | error f => rfl
      | ok a =>
        simp only [Except.map, within, Except.mapError, hrest]
        cases gathered (i + 1) (l.map (·.2)) with
        | error f => rfl
        | ok as => rfl

theorem length_le_separated {l : List (List Char)} (h : ∀ s ∈ l, 0 < s.length) (first : Bool) :
    l.length ≤ (separated first l).length := by
  induction l generalizing first with
  | nil => exact Nat.le_refl _
  | cons s l ih =>
    have hpos := h s List.mem_cons_self
    have hrest := ih (fun t ht => h t (List.mem_cons_of_mem s ht)) false
    simp only [separated, List.length_append, List.length_cons]
    split
    · omega
    · simp only [List.length_cons]
      omega

theorem Starts.length_text {p : Padded} (h : Starts p.body) : 0 < p.text.length := by
  rw [p.length_text]
  exact Nat.lt_of_lt_of_le h.length_pos (by omega)

theorem settles_listOf {l : List (Padded × Except Fault α)}
    (h : ∀ q ∈ l, Starts q.1.body ∧ Settles r least q.1.body q.2) (hgap : Blank gap) :
    Settles (listOf r) (least + 2) (listText gap (l.map (·.1))) (gathered 0 (l.map (·.2))) := by
  intro depth hdepth gap' rest hgap' _
  have hlen : l.length ≤ (separated true (l.map (·.1.text))).length := by
    refine Nat.le_trans (Nat.le_of_eq (List.length_map _).symm) (length_le_separated ?_ true)
    intro s hs
    obtain ⟨q, hq, rfl⟩ := List.mem_map.1 hs
    exact (h q hq).1.length_text
  have hitems := fun (fuel : Nat) (hfuel : l.length < fuel) =>
    readItems_append h (show least ≤ depth - 1 by omega) hfuel 0 hgap rest
  unfold listText listOf
  rw [joined_eq_separated, List.map_map, List.cons_append, skipBlank_append hgap',
    skipBlank_cons (show isBlank '[' = false from rfl)]
  simp only [decide_true, Function.comp_def] at hitems ⊢
  rw [if_neg (by omega), List.append_assoc, List.append_assoc]
  simp only [List.cons_append, List.nil_append]
  rw [hitems _ (by simp only [List.length_append, List.length_cons]; omega)]
  cases gathered 0 (l.map (·.2)) with
  | error f => rfl
  | ok as => rfl

end PinLedger.Json
