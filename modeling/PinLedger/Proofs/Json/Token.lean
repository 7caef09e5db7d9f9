import PinLedger.Proofs.Failing
import PinLedger.Proofs.Json.Grammar

/-!
# PinLedger.Proofs.Json.Token

The readers of tokens on the grammar. A token is read as a whole, whatever comes of it, and what
follows it has no part in that.

* `takes_readString`, `readString_of_spells` — what stands between quotes
* `takes_readNumber` — numbers
* `skipString_append`, `skipNumber_append` — nothing that is skipped fails
-/

namespace PinLedger.Json

open Text

variable {α : Type} {s t rest : List Char}

/-! ### Words -/

theorem readWord_append (word rest : List Char) :
    readWord word (word ++ rest) = .ok ((), rest) := by
  induction word with
  | nil =>
    cases rest with
    | nil => rfl
    | cons c rest => rfl
  | cons c word ih => exact (if_pos rfl).trans ih

/-! ### Strings -/

theorem readHex4_of_codeUnit? {a b c d : Char} {n : Nat} (h : codeUnit? a b c d = some n)
    (rest : List Char) : readHex4 (a :: b :: c :: d :: rest) = .ok (n, rest) := by
  unfold codeUnit? at h
  split at h
  · rename_i _ _ _ _ ha hb hc hd
    cases h
    simp only [readHex4, ha, hb, hc, hd]
  · cases h

theorem readEscape_of_mem {c e : Char} (h : (c, e) ∈ shortEscapes) (rest : List Char) :
    readEscape (c :: rest) = .ok (e, rest) := by
  simp only [shortEscapes, List.mem_cons, Prod.mk.injEq, List.not_mem_nil, or_false] at h
  rcases h with ⟨rfl, rfl⟩ | ⟨rfl, rfl⟩ | ⟨rfl, rfl⟩ | ⟨rfl, rfl⟩ | ⟨rfl, rfl⟩ | ⟨rfl, rfl⟩ |
    ⟨rfl, rfl⟩ | ⟨rfl, rfl⟩ <;> rfl

theorem skipEscape_of_mem {c e : Char} (h : (c, e) ∈ shortEscapes) (rest : List Char) :
    skipEscape (c :: rest) = .ok ((), rest) := by
  simp only [shortEscapes, List.mem_cons, Prod.mk.injEq, List.not_mem_nil, or_false] at h
  rcases h with ⟨rfl, rfl⟩ | ⟨rfl, rfl⟩ | ⟨rfl, rfl⟩ | ⟨rfl, rfl⟩ | ⟨rfl, rfl⟩ | ⟨rfl, rfl⟩ |
    ⟨rfl, rfl⟩ | ⟨rfl, rfl⟩ <;> rfl

theorem ne_u_of_mem {c e : Char} (h : (c, e) ∈ shortEscapes) : c ≠ 'u' := by
  rintro rfl
  simp [shortEscapes] at h

/-- With the fuel that it needs, a string is read up to its closing quote. -/
def ReadsTo (s : List Char) (x : Except Reason (List Char)) : Prop :=
  ∀ fuel, s.length < fuel → ∀ rest, readStringFrom fuel (s ++ '"' :: rest) = x.map (·, rest)

theorem readsTo_nil : ReadsTo [] (.ok []) := by
  intro fuel hfuel rest
  cases fuel with
  | zero => cases hfuel
  | succ fuel => rfl

theorem ReadsTo.plain {c : Char} {x : Except Reason (List Char)} (hquote : c ≠ '"')
    (hslash : c ≠ '\\') (hc : 32 ≤ c.toNat) (h : ReadsTo s x) :
    ReadsTo (c :: s) (x.map (c :: ·)) := by
  intro fuel hfuel rest
  cases fuel with
  | zero => cases hfuel
  | succ fuel =>
    rw [List.cons_append, readStringFrom, if_neg hquote, if_neg hslash, if_neg (by omega),
      h fuel (by simpa using hfuel)]
    cases x with
    | error r => rfl
    | ok text => rfl

/-- An escape that reads as a character, with the string that follows it. -/
theorem ReadsTo.escape {e : List Char} {d : Char} {x : Except Reason (List Char)}
    (he : ∀ rest, readEscape (e ++ rest) = .ok (d, rest)) (h : ReadsTo s x) :
    ReadsTo ('\\' :: (e ++ s)) (x.map (d :: ·)) := by
  intro fuel hfuel rest
  cases fuel with
  | zero => cases hfuel
  | succ fuel =>
    have hlen : s.length < fuel := by
      simp only [List.length_cons, List.length_append] at hfuel
      omega
    rw [List.cons_append, List.append_assoc, readStringFrom, if_neg (by decide), if_pos rfl, he]
    simp only [bind, Except.bind, h fuel hlen]
    cases x with
    | error r => rfl
    | ok text => rfl

/-- An escape that cannot be read is the end. -/
theorem readsTo_of_bad {e : List Char} {r : Reason}
    (he : ∀ rest, readEscape (e ++ '"' :: rest) = .error r) : ReadsTo ('\\' :: e) (.error r) := by
  intro fuel hfuel rest
  cases fuel with
  | zero => cases hfuel
  | succ fuel =>
    rw [List.cons_append, readStringFrom, if_neg (by decide), if_pos rfl, he]
    rfl

theorem readEscape_unit {a b c d : Char} {n : Nat} (hn : codeUnit? a b c d = some n)
    (rest : List Char) :
    readEscape ('u' :: a :: b :: c :: d :: rest) =
      if isTrailingSurrogate n then .error .loneSurrogate
      else if isLeadingSurrogate n then readTrailing n rest
      else .ok (Char.ofNat n, rest) := by
  simp only [readEscape, readHex4_of_codeUnit? hn, bind, Except.bind]

theorem readTrailing_unit {a b c d : Char} {n : Nat} (hn : codeUnit? a b c d = some n)
    (leading : Nat) (rest : List Char) :
    readTrailing leading ('\\' :: 'u' :: a :: b :: c :: d :: rest) =
      if isTrailingSurrogate n then
        .ok (Char.ofNat ((leading - 0xD800) * 1024 + (n - 0xDC00) + 0x10000), rest)
      else .error .loneSurrogate := by
  simp only [readTrailing, readHex4_of_codeUnit? hn, bind, Except.bind]

theorem ReadsTo.of_spells (h : Spells s t) : ReadsTo s (.ok t) := by
  induction h with
  | nil => exact readsTo_nil
  | plain hquote hslash hc _ ih => exact ih.plain hquote hslash hc
  | @escape c e s t he _ ih => exact ih.escape (e := [c]) (readEscape_of_mem he)
  | @unit a b c d n s t hn hlead htrail _ ih =>
    refine ih.escape (e := ['u', a, b, c, d]) fun rest => ?_
    refine (readEscape_unit hn rest).trans ?_
    rw [hlead, htrail]
    rfl
  | @pair a b c d a' b' c' d' n n' s t hn hlead hn' htrail _ ih =>
    have hnot : isTrailingSurrogate n = false := by
      simp only [isLeadingSurrogate, isTrailingSurrogate, Bool.and_eq_true, decide_eq_true_eq,
        Bool.and_eq_false_iff, decide_eq_false_iff_not] at hlead ⊢
      omega
    refine ih.escape (e := ['u', a, b, c, d, '\\', 'u', a', b', c', d']) fun rest => ?_
    refine (readEscape_unit hn _).trans ?_
    rw [hlead, hnot]
    refine (readTrailing_unit hn' n rest).trans ?_
    rw [htrail]
    rfl

/-- Half of a character, with what follows it. Only another half may complete it. -/
theorem readsTo_of_leading {a b c d : Char} {n : Nat} (hn : codeUnit? a b c d = some n)
    (hlead : isLeadingSurrogate n = true) (htrail : isTrailingSurrogate n = false)
    (hs : IsString s) (hnext : ∀ a b c d t, s = '\\' :: 'u' :: a :: b :: c :: d :: t →
      ∃ x, ReadsTo t x) : ∃ x, ReadsTo ('\\' :: 'u' :: a :: b :: c :: d :: s) x := by
  have hbad : ∀ r, (∀ rest, readTrailing n (s ++ '"' :: rest) = .error r) →
      ∃ x, ReadsTo ('\\' :: 'u' :: a :: b :: c :: d :: s) x := by
    intro r hr
    refine ⟨.error r, readsTo_of_bad (e := 'u' :: a :: b :: c :: d :: s) fun rest => ?_⟩
    refine (readEscape_unit hn _).trans ?_
    rw [htrail, hlead]
    exact hr rest
  cases hs with
  | nil => exact hbad .endOfHexEscape fun _ => rfl
  | @plain c' s' hquote hslash hc' h =>
    refine hbad .endOfHexEscape fun rest => ?_
    rw [List.cons_append, readTrailing]
    · nofun
    · rintro s heq
      exact hslash (List.cons.inj heq).1
  | @escape c' e' s' he' h =>
    refine hbad .endOfHexEscape fun rest => ?_
    rw [List.cons_append, List.cons_append, readTrailing]
    · nofun
    · rintro t heq
      exact ne_u_of_mem he' (List.cons.inj heq).1
  | @unit a' b' c' d' n' s' hn' h =>
    cases htrail' : isTrailingSurrogate n' with
    | false =>
      refine hbad .loneSurrogate fun rest => ?_
      refine (readTrailing_unit hn' n _).trans ?_
      rw [htrail']
      rfl
    | true =>
      obtain ⟨x, hx⟩ := hnext a' b' c' d' s' rfl
      refine ⟨_, hx.escape (e := ['u', a, b, c, d, '\\', 'u', a', b', c', d'])
        (d := Char.ofNat ((n - 0xD800) * 1024 + (n' - 0xDC00) + 0x10000)) fun rest => ?_⟩
      refine (readEscape_unit hn _).trans ?_
      rw [htrail, hlead]
      refine (readTrailing_unit hn' n rest).trans ?_
      rw [htrail']
      rfl

/-- What stands between quotes is read as a whole. Two escapes may make one character, so that the
string after the second of them is looked at as well. -/
theorem exists_readsTo (h : IsString s) : (∃ x, ReadsTo s x) ∧
    ∀ a b c d t, s = '\\' :: 'u' :: a :: b :: c :: d :: t → ∃ x, ReadsTo t x := by
  induction h with
  | nil => exact ⟨⟨_, readsTo_nil⟩, nofun⟩
  | @plain c s hquote hslash hc _ ih =>
    obtain ⟨⟨x, hx⟩, _⟩ := ih
    refine ⟨⟨_, hx.plain hquote hslash hc⟩, ?_⟩
    rintro a b c' d t heq
    exact absurd (List.cons.inj heq).1 hslash
  | @escape c e s he _ ih =>
    obtain ⟨⟨x, hx⟩, _⟩ := ih
    refine ⟨⟨_, hx.escape (e := [c]) (readEscape_of_mem he)⟩, ?_⟩
    rintro a b c' d t heq
    exact absurd (List.cons.inj (List.cons.inj heq).2).1 (ne_u_of_mem he)
  | @unit a b c d n s hn hs ih =>
    obtain ⟨⟨x, hx⟩, hnext⟩ := ih
    constructor
    · cases htrail : isTrailingSurrogate n with
      | true =>
        refine ⟨.error .loneSurrogate,
          readsTo_of_bad (e := 'u' :: a :: b :: c :: d :: s) fun rest => ?_⟩
        refine (readEscape_unit hn _).trans ?_
        rw [htrail]
        rfl
      | false =>
        cases hlead : isLeadingSurrogate n with
        | true => exact readsTo_of_leading hn hlead htrail hs hnext
        | false =>
          refine ⟨_, hx.escape (e := ['u', a, b, c, d]) (d := Char.ofNat n) fun rest => ?_⟩
          refine (readEscape_unit hn rest).trans ?_
          rw [htrail, hlead]
          rfl
    · rintro a' b' c' d' t heq
      cases heq
      exact ⟨x, hx⟩

theorem ReadsTo.readString {x : Except Reason (List Char)} (h : ReadsTo s x) (rest : List Char) :
    readString (s ++ '"' :: rest) = (x.map String.ofList).map (·, rest) := by
  unfold Json.readString
  rw [h _ (by simp only [List.length_append, List.length_cons]; omega)]
  cases x with
  | error r => rfl
  | ok text => rfl

theorem takes_readString (h : IsString s) :
    ∃ x : Except Reason String, ∀ rest, readString (s ++ '"' :: rest) = x.map (·, rest) := by
  obtain ⟨⟨x, hx⟩, _⟩ := exists_readsTo h
  exact ⟨_, hx.readString⟩

theorem readString_of_spells {k : String} (h : Spells s k.toList) (rest : List Char) :
    readString (s ++ '"' :: rest) = .ok (k, rest) := by
  rw [(ReadsTo.of_spells h).readString]
  simp [Except.map]

theorem isString_of_spells (h : Spells s t) : IsString s := by
  induction h with
  | nil => exact .nil
  | plain hquote hslash hc _ ih => exact .plain hquote hslash hc ih
  | escape he _ ih => exact .escape he ih
  | unit hn _ _ _ ih => exact .unit hn ih
  | pair hn _ hn' _ _ ih => exact .unit hn (.unit hn' ih)

theorem skipStringFrom_append (h : IsString s) {fuel : Nat} (hfuel : s.length < fuel)
    (rest : List Char) : skipStringFrom fuel (s ++ '"' :: rest) = .ok ((), rest) := by
  induction h generalizing fuel with
  | nil =>
    cases fuel with
    | zero => cases hfuel
    | succ fuel => rfl
  | plain hquote hslash hc _ ih =>
    cases fuel with
    | zero => cases hfuel
    | succ fuel =>
      rw [List.cons_append, skipStringFrom, if_neg hquote, if_neg hslash, if_neg (by omega)]
      exact ih (by simpa using hfuel)
  | escape he _ ih =>
    cases fuel with
    | zero => cases hfuel
    | succ fuel =>
      rw [List.cons_append, skipStringFrom, if_neg (by decide), if_pos rfl, List.cons_append,
        skipEscape_of_mem he]
      simp only [List.length_cons] at hfuel
      exact ih (by omega)
  | unit hn _ ih =>
    cases fuel with
    | zero => cases hfuel
    | succ fuel =>
      rw [List.cons_append, skipStringFrom, if_neg (by decide), if_pos rfl]
      simp only [List.cons_append, skipEscape, readHex4_of_codeUnit? hn, bind, Except.bind]
      simp only [List.length_cons] at hfuel
      exact ih (by omega)

theorem skipString_append (h : IsString s) (rest : List Char) :
    skipString (s ++ '"' :: rest) = .ok ((), rest) :=
  skipStringFrom_append h (by simp only [List.length_append, List.length_cons]; omega) rest

/-! ### Numbers -/

/-- The reader takes this text as a whole, whatever comes of it, if what follows ends it. -/
def Takes (f : List Char → Except Reason (α × List Char)) (s : List Char) : Prop :=
  ∃ x : Except Reason α, ∀ rest, Ends rest → f (s ++ rest) = x.map (·, rest)

/-- A reader that goes on like another one, or calls another one for the rest of the text. -/
theorem Takes.of_eq {f g : List Char → Except Reason (α × List Char)} (h : Takes g s)
    (hfg : ∀ rest, Ends rest → f (t ++ rest) = g (s ++ rest)) : Takes f t := by
  obtain ⟨x, hx⟩ := h
  exact ⟨x, fun rest hrest => (hfg rest hrest).trans (hx rest hrest)⟩

theorem takes_double (negative : Bool) (significand : Nat) (exponent : Int) :
    Takes (double negative significand exponent) [] := by
  unfold Takes double
  cases Binary64.scaled? significand exponent with
  | none => exact ⟨.error .numberOutOfRange, fun _ _ => rfl⟩
  | some x => exact ⟨.ok (.double negative x), fun _ _ => rfl⟩

theorem Digits.takeWhile {ds : List Char} (h : Digits ds) (hstop : Stops isDigit rest) :
    (ds ++ rest).takeWhile isDigit = ds :=
  takeWhile_append_of_stops h.2 hstop

theorem Digits.head {ds : List Char} (h : Digits ds) :
    ∃ c t, ds = c :: t ∧ isDigit c = true := by
  cases ds with
  | nil => exact absurd rfl h.1
  | cons c t => exact ⟨c, t, rfl, h.2 c List.mem_cons_self⟩

theorem ne_of_isDigit {c : Char} (h : isDigit c = true) :
    c ≠ '+' ∧ c ≠ '-' ∧ c ≠ '.' ∧ c ≠ 'e' ∧ c ≠ 'E' := by
  refine ⟨?_, ?_, ?_, ?_, ?_⟩ <;> rintro rfl <;> cases h

/-- What comes of an exponent. -/
theorem readExponent_append (negative : Bool) (significand : Nat) (exponent : Int)
    {sign ds : List Char} (hsign : IsSign sign) (hds : Digits ds) (hstop : Stops isDigit rest) :
    readExponent negative significand exponent (sign ++ (ds ++ rest)) =
      if value ds < signLimit 32 then
        double negative significand
          (if sign = ['-'] then exponent - value ds else exponent + value ds) rest
      else if significand ≠ 0 ∧ ¬ sign = ['-'] then .error .numberOutOfRange
      else .ok (.double negative .zero, rest) := by
  have htake := hds.takeWhile hstop
  obtain ⟨c, t, rfl, hc⟩ := hds.head
  obtain ⟨hplus, hminus, _⟩ := ne_of_isDigit hc
  have hdrop : ((c :: t) ++ rest).drop (c :: t).length = rest := List.drop_left
  rcases hsign with rfl | rfl | rfl
  · unfold readExponent
    rw [List.nil_append, List.cons_append]
    split
    rename_i down s heq
    have heq : down = false ∧ s = c :: (t ++ rest) := by
      split at heq
      · rename_i hcons
        exact absurd (List.cons.inj hcons).1 hplus
      · rename_i hcons
        exact absurd (List.cons.inj hcons).1 hminus
      · cases heq
        exact ⟨rfl, rfl⟩
    obtain ⟨rfl, rfl⟩ := heq
    simp only [List.cons_append] at htake hdrop
    simp only [hc, htake, hdrop]
    simp
  · simp only [List.cons_append, List.nil_append] at htake hdrop ⊢
    simp only [readExponent, hc, htake, hdrop]
    simp
  · simp only [List.cons_append, List.nil_append] at htake hdrop ⊢
    simp only [readExponent, hc, htake, hdrop]
    simp

theorem takes_readExponent (negative : Bool) (significand : Nat) (exponent : Int)
    {sign ds : List Char} (hsign : IsSign sign) (hds : Digits ds) :
    Takes (readExponent negative significand exponent) (sign ++ ds) := by
  have hend := fun (rest : List Char) (hrest : Ends rest) =>
    readExponent_append negative significand exponent hsign hds hrest.stops_isDigit
  by_cases hvalue : value ds < signLimit 32
  · refine (takes_double negative significand
      (if sign = ['-'] then exponent - value ds else exponent + value ds)).of_eq
        fun rest hrest => ?_
    rw [List.append_assoc, hend rest hrest, if_pos hvalue]
    rfl
  · by_cases hlarge : significand ≠ 0 ∧ ¬ sign = ['-']
    · refine ⟨.error .numberOutOfRange, fun rest hrest => ?_⟩
      rw [List.append_assoc, hend rest hrest, if_neg hvalue, if_pos hlarge]
      rfl
    · refine ⟨.ok (.double negative .zero), fun rest hrest => ?_⟩
      rw [List.append_assoc, hend rest hrest, if_neg hvalue, if_neg hlarge]
      rfl

/-- After the digits nothing follows but an exponent. -/
theorem stops_exponent {exp : List Char} (h : IsExponent exp) (hrest : Ends rest) :
    Stops isDigit (exp ++ rest) := by
  rcases h with rfl | ⟨e, sign, ds, he, _, _, rfl⟩
  · exact hrest.stops_isDigit
  · refine stops_cons ?_
    rcases he with rfl | rfl <;> rfl

theorem readAfterDigits_end (negative : Bool) (significand : Nat) (exponent : Int)
    (hrest : Ends rest) :
    readAfterDigits negative significand exponent rest =
      double negative significand exponent rest := by
  unfold readAfterDigits
  split
  · exact absurd (hrest _ rfl) (by decide)
  · exact absurd (hrest _ rfl) (by decide)
  · rfl

theorem takes_readAfterDigits (negative : Bool) (significand : Nat) (exponent : Int)
    {exp : List Char} (h : IsExponent exp) :
    Takes (readAfterDigits negative significand exponent) exp := by
  rcases h with rfl | ⟨e, sign, ds, he, hsign, hds, rfl⟩
  · exact (takes_double negative significand exponent).of_eq fun rest hrest =>
      readAfterDigits_end negative significand exponent hrest
  · refine (takes_readExponent negative significand exponent hsign hds).of_eq fun rest _ => ?_
    rcases he with rfl | rfl <;> rfl

theorem readDigits_stop (n : Nat) (h : Stops isDigit rest) : readDigits n rest = (n, rest) := by
  cases rest with
  | nil => rfl
  | cons c rest =>
    have hc : digitValue? c = none := by
      have hnot := h c rfl
      unfold isDigit at hnot
      simpa using hnot
    simp only [readDigits, hc]

/-- Digits are taken as long as the number stays small enough. What is left of them does not depend
on what follows. -/
theorem readDigits_append {ds : List Char} (hds : ∀ c ∈ ds, isDigit c = true) (n : Nat) :
    ∃ m more, (∀ c ∈ more, isDigit c = true) ∧
      ∀ rest, Stops isDigit rest → readDigits n (ds ++ rest) = (m, more ++ rest) := by
  induction ds generalizing n with
  | nil => exact ⟨n, [], List.forall_mem_nil _, fun rest hrest => readDigits_stop n hrest⟩
  | cons c ds ih =>
    have hc := hds c List.mem_cons_self
    obtain ⟨d, hd⟩ := Option.isSome_iff_exists.1 hc
    by_cases hsmall : 10 * n + d ≤ maxNatural
    · obtain ⟨m, more, hmore, hread⟩ :=
        ih (fun d hd => hds d (List.mem_cons_of_mem c hd)) (10 * n + d)
      refine ⟨m, more, hmore, fun rest hrest => ?_⟩
      simp only [List.cons_append, readDigits, hd, if_pos hsmall]
      exact hread rest hrest
    · refine ⟨n, c :: ds, hds, fun rest _ => ?_⟩
      simp only [List.cons_append, readDigits, hd, if_neg hsmall]

theorem takes_readFraction (negative : Bool) (significand : Nat) (exponent : Int)
    {ds exp : List Char} (hds : Digits ds) (hexp : IsExponent exp) :
    Takes (readFraction negative significand exponent) (ds ++ exp) := by
  obtain ⟨m, more, hmore, hread⟩ := readDigits_append hds.2 significand
  refine (takes_readAfterDigits negative m (exponent - (ds.length - more.length)) hexp).of_eq
    fun rest hrest => ?_
  have hstop := stops_exponent hexp hrest
  have hdigits := hread (exp ++ rest) hstop
  have hcount : (((ds ++ (exp ++ rest)).length : Int) - ((more ++ (exp ++ rest)).length : Int)) =
      ds.length - more.length := by
    simp only [List.length_append]
    omega
  obtain ⟨c, t, rfl, hc⟩ := hds.head
  rw [List.append_assoc]
  unfold readFraction
  simp only [List.cons_append] at hdigits hcount ⊢
  simp only [hdigits, hcount]
  cases more with
  | nil =>
    simp only [List.nil_append]
    cases hnext : exp ++ rest with
    | nil => rfl
    | cons d rest' =>
      have hd : isDigit d = false := hstop d (by rw [hnext]; rfl)
      simp only [hd, hc]
      simp
  | cons d more =>
    have hdrop := dropWhile_append_of_stops hmore hstop
    simp only [List.cons_append] at hdrop ⊢
    simp only [hmore d List.mem_cons_self, if_true, hdrop]

theorem readAfterInteger_end (negative : Bool) (n : Nat) (hrest : Ends rest) :
    readAfterInteger negative n rest =
      if negative then
        if n = 0 ∨ signLimit 64 < n then double true n 0 rest else .ok (.negative n, rest)
      else .ok (.natural n, rest) := by
  unfold readAfterInteger
  split
  · exact absurd (hrest _ rfl) (by decide)
  · exact absurd (hrest _ rfl) (by decide)
  · exact absurd (hrest _ rfl) (by decide)
  · rfl

theorem takes_readAfterInteger (negative : Bool) (n : Nat) {frac exp : List Char}
    (hfrac : IsFraction frac) (hexp : IsExponent exp) :
    Takes (readAfterInteger negative n) (frac ++ exp) := by
  rcases hfrac with rfl | ⟨ds, hds, rfl⟩
  · rcases hexp with rfl | ⟨e, sign, ds, he, hsign, hds, rfl⟩
    · have hend := fun (rest : List Char) (hrest : Ends rest) =>
        readAfterInteger_end negative n hrest
      cases negative with
      | false => exact ⟨.ok (.natural n), fun rest hrest => (hend rest hrest).trans rfl⟩
      | true =>
        by_cases hdouble : n = 0 ∨ signLimit 64 < n
        · refine (takes_double true n 0).of_eq fun rest hrest => ?_
          refine (hend rest hrest).trans ?_
          rw [if_pos rfl, if_pos hdouble]
          rfl
        · refine ⟨.ok (.negative n), fun rest hrest => (hend rest hrest).trans ?_⟩
          rw [if_pos rfl, if_neg hdouble]
          rfl
    · refine (takes_readExponent negative n 0 hsign hds).of_eq fun rest _ => ?_
      rcases he with rfl | rfl <;> rfl
  · exact (takes_readFraction negative n 0 hds hexp).of_eq fun rest _ => rfl

/-- After the integer part no digit follows. -/
theorem stops_fraction {frac exp : List Char} (hfrac : IsFraction frac) (hexp : IsExponent exp)
    (hrest : Ends rest) : Stops isDigit (frac ++ (exp ++ rest)) := by
  rcases hfrac with rfl | ⟨ds, _, rfl⟩
  · rw [List.nil_append]
    exact stops_exponent hexp hrest
  · exact stops_cons rfl

theorem head?_of_stops (h : Stops isDigit rest) : (rest.head?.map isDigit).getD false = false := by
  cases rest with
  | nil => rfl
  | cons c rest => exact h c rfl

theorem digitValue?_ne_zero {c : Char} (h : isDigit c = true) (hzero : c ≠ '0') :
    ∃ d, digitValue? c = some (d + 1) := by
  obtain ⟨d, hd⟩ := Option.isSome_iff_exists.1 h
  cases d with
  | succ d => exact ⟨d, hd⟩
  | zero =>
    refine absurd ?_ hzero
    unfold digitValue? at hd
    split at hd
    case isFalse => cases hd
    case isTrue hc =>
      have hlow : '0'.toNat ≤ c.toNat := hc.1
      have hsub : c.toNat - 48 = 0 := Option.some.inj hd
      have hval : '0'.toNat = 48 := rfl
      exact Char.toNat_inj.1 (by omega)

/-- What may follow an integer part of which 64 bits cannot hold the last `count` digits. -/
def readAfterLarge (negative : Bool) (n count : Nat) :
    List Char → Except Reason (Number × List Char)
  | '.' :: s => readFraction negative n count s
  | s => readAfterDigits negative n count s

theorem takes_readAfterLarge (negative : Bool) (n count : Nat) {frac exp : List Char}
    (hfrac : IsFraction frac) (hexp : IsExponent exp) :
    Takes (readAfterLarge negative n count) (frac ++ exp) := by
  rcases hfrac with rfl | ⟨ds, hds, rfl⟩
  · refine (takes_readAfterDigits negative n count hexp).of_eq fun rest hrest => ?_
    rw [List.nil_append]
    unfold readAfterLarge
    split
    case h_1 s heq =>
      rcases hexp with rfl | ⟨e, sign, ds, he, _, _, rfl⟩
      · rw [List.nil_append] at heq
        rw [heq] at hrest
        exact absurd (hrest _ rfl) (by decide)
      · have hpoint : e = '.' := (List.cons.inj heq).1
        rcases he with rfl | rfl
        · exact absurd hpoint (by decide)
        · exact absurd hpoint (by decide)
    case h_2 => rfl
  · exact (takes_readFraction negative n count hds hexp).of_eq fun rest _ => rfl

theorem takes_readUnsigned (negative : Bool) {int frac exp : List Char} (hint : IsInteger int)
    (hfrac : IsFraction frac) (hexp : IsExponent exp) :
    Takes (readUnsigned negative) (int ++ (frac ++ exp)) := by
  rcases hint with rfl | ⟨c, ds, hc, hzero, hds, rfl⟩
  · refine (takes_readAfterInteger negative 0 hfrac hexp).of_eq fun rest hrest => ?_
    have hhead := head?_of_stops (stops_fraction hfrac hexp hrest)
    simp only [List.append_assoc, List.cons_append, List.nil_append, readUnsigned]
    rw [hhead]
    rfl
  · obtain ⟨d, hd⟩ := digitValue?_ne_zero hc hzero
    obtain ⟨m, more, hmore, hread⟩ := readDigits_append hds (d + 1)
    cases more with
    | nil =>
      refine (takes_readAfterInteger negative m hfrac hexp).of_eq fun rest hrest => ?_
      have hstop := stops_fraction hfrac hexp hrest
      have hhead := head?_of_stops hstop
      have hdigits := hread _ hstop
      simp only [List.append_assoc, List.cons_append, List.nil_append] at hdigits ⊢
      simp only [readUnsigned, hd, hdigits, hhead]
      rfl
    | cons x more =>
      refine (takes_readAfterLarge negative m (x :: more).length hfrac hexp).of_eq
        fun rest hrest => ?_
      have hstop := stops_fraction hfrac hexp hrest
      have hdigits := hread _ hstop
      have htake := takeWhile_append_of_stops hmore hstop
      have hdrop : ((x :: more) ++ (frac ++ (exp ++ rest))).drop (x :: more).length =
          frac ++ (exp ++ rest) := List.drop_left
      have hhead : isDigit x = true := hmore x List.mem_cons_self
      simp only [List.append_assoc, List.cons_append] at hdigits htake hdrop ⊢
      simp only [readUnsigned, hd, hdigits, htake, hdrop, List.head?_cons, Option.map_some, hhead,
        Option.getD_some, if_true]
      rfl

theorem takes_readNumber (h : IsNumber s) : Takes readNumber s := by
  obtain ⟨minus, int, frac, exp, hminus, hint, hfrac, hexp, rfl⟩ := h
  rcases hminus with rfl | rfl
  · refine (takes_readUnsigned false hint hfrac hexp).of_eq fun rest _ => ?_
    obtain ⟨c, t, rfl, hc⟩ := hint.digits.head
    simp only [List.nil_append, List.cons_append]
    unfold readNumber
    split
    · rename_i heq
      rw [(List.cons.inj heq).1] at hc
      cases hc
    · rfl
  · exact (takes_readUnsigned true hint hfrac hexp).of_eq fun rest _ => rfl

/-! ### Numbers that are skipped -/

theorem skipDigits_append {ds : List Char} (hds : Digits ds) (hstop : Stops isDigit rest) :
    skipDigits (ds ++ rest) = .ok ((), rest) := by
  have htake := hds.takeWhile hstop
  obtain ⟨c, t, rfl, _⟩ := hds.head
  unfold skipDigits
  rw [htake]
  simp only [List.drop_left]

theorem skipExponent_append {sign ds : List Char} (hsign : IsSign sign) (hds : Digits ds)
    (hstop : Stops isDigit rest) : skipExponent (sign ++ (ds ++ rest)) = .ok ((), rest) := by
  rcases hsign with rfl | rfl | rfl
  · rw [List.nil_append]
    have hskip := skipDigits_append hds hstop
    obtain ⟨c, t, rfl, hc⟩ := hds.head
    obtain ⟨hplus, hminus, _⟩ := ne_of_isDigit hc
    unfold skipExponent
    split
    · rename_i heq
      exact absurd (List.cons.inj heq).1 hplus
    · rename_i heq
      exact absurd (List.cons.inj heq).1 hminus
    · exact hskip
  · exact skipDigits_append hds hstop
  · exact skipDigits_append hds hstop

/-- The text after the exponent of a number, if it has one. -/
theorem skip_exponent {exp : List Char} (hexp : IsExponent exp) (hrest : Ends rest) :
    (match exp ++ rest with
      | 'e' :: s | 'E' :: s => skipExponent s
      | s => .ok ((), s)) = .ok ((), rest) := by
  rcases hexp with rfl | ⟨e, sign, ds, he, hsign, hds, rfl⟩
  · rw [List.nil_append]
    split
    · exact absurd (hrest _ rfl) (by decide)
    · exact absurd (hrest _ rfl) (by decide)
    · rfl
  · have hskip := skipExponent_append hsign hds hrest.stops_isDigit
    rcases he with rfl | rfl
    · simpa using hskip
    · simpa using hskip

theorem skipAfterInteger_append {frac exp : List Char} (hfrac : IsFraction frac)
    (hexp : IsExponent exp) (hrest : Ends rest) :
    skipAfterInteger (frac ++ (exp ++ rest)) = .ok ((), rest) := by
  rcases hfrac with rfl | ⟨ds, hds, rfl⟩
  · rw [List.nil_append]
    rcases hexp with rfl | ⟨e, sign, ds, he, hsign, hds, rfl⟩
    · rw [List.nil_append]
      unfold skipAfterInteger
      split
      · exact absurd (hrest _ rfl) (by decide)
      · exact absurd (hrest _ rfl) (by decide)
      · exact absurd (hrest _ rfl) (by decide)
      · rfl
    · have hskip := skipExponent_append hsign hds hrest.stops_isDigit
      rw [List.cons_append, List.append_assoc]
      rcases he with rfl | rfl
      · exact hskip
      · exact hskip
  · have hskip := skipDigits_append hds (stops_exponent hexp hrest)
    simp only [List.cons_append, skipAfterInteger, hskip, bind, Except.bind]
    exact skip_exponent hexp hrest

theorem skipUnsigned_append {int frac exp : List Char} (hint : IsInteger int)
    (hfrac : IsFraction frac) (hexp : IsExponent exp) (hrest : Ends rest) :
    skipUnsigned (int ++ (frac ++ (exp ++ rest))) = .ok ((), rest) := by
  have hstop := stops_fraction hfrac hexp hrest
  have hafter := skipAfterInteger_append hfrac hexp hrest
  rcases hint with rfl | ⟨c, ds, hc, hzero, hds, rfl⟩
  · simp only [List.cons_append, List.nil_append, skipUnsigned, head?_of_stops hstop]
    exact hafter
  · have hdigits : Digits (c :: ds) :=
      IsInteger.digits (.inr ⟨c, ds, hc, hzero, hds, rfl⟩)
    have hskip := skipDigits_append hdigits hstop
    unfold skipUnsigned
    split
    · rename_i heq
      exact absurd (List.cons.inj heq).1 hzero
    · simp only [hskip, bind, Except.bind]
      exact hafter

theorem skipNumber_append (h : IsNumber s) (hrest : Ends rest) :
    skipNumber (s ++ rest) = .ok ((), rest) := by
  obtain ⟨minus, int, frac, exp, hminus, hint, hfrac, hexp, rfl⟩ := h
  have hskip := skipUnsigned_append hint hfrac hexp hrest
  simp only [List.append_assoc]
  rcases hminus with rfl | rfl
  · rw [List.nil_append]
    obtain ⟨c, t, rfl, hc⟩ := hint.digits.head
    unfold skipNumber
    split
    · rename_i heq
      rw [(List.cons.inj heq).1] at hc
      cases hc
    · exact hskip
  · exact hskip

end PinLedger.Json
