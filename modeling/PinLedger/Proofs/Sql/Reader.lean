import PinLedger.Proofs.NameSet
import PinLedger.Proofs.Text.Decimal
import PinLedger.Proofs.Time.Text
import PinLedger.Sql.Quote

/-!
# PinLedger.Proofs.Sql.Reader

Readers for the names and values inside of SQL text. Each takes its value from the front of a text
and gives the rest. A quoted text ends at the first quote that is not doubled, so no text can end
its own quotes, and what stands behind them is not read as part of it.

* `Sql.readQuoted`, `Sql.readName`, `Sql.readTextArray` — texts in quotes, alone and in rows
* `Sql.readTimestamp`, `Sql.readStamp`, `Sql.readOptionalText`, `Sql.readInteger` — other values
* `Sql.readQuoted_enclosed`, `Sql.readName_identifier`, `Sql.readTextArray_textArray` — they read what
  was written, whatever it is and whatever comes behind
-/

namespace PinLedger.Sql

open Text

/-- A reader takes what it reads from the front of a text and gives the rest. -/
abbrev Reader (α : Type) := List Char → Option (α × List Char)

/-! ### Fixed words -/

/-- The rest behind a word that the text has to start with. -/
def expect (word : String) (s : List Char) : Option (List Char) :=
  if word.toList.isPrefixOf s then some (s.drop word.toList.length) else none

theorem expect_self (word : String) (rest : List Char) :
    expect word (word.toList ++ rest) = some rest := by
  unfold expect
  rw [if_pos (List.isPrefixOf_iff_prefix.2 (List.prefix_append _ _)), List.drop_left]

/-- A text that goes on with another character does not go on with the word. -/
theorem expect_of_stops {c : Char} {word : String} {w rest : List Char} (hword : word.toList = c :: w)
    (hrest : Stops (· == c) rest) : expect word rest = none := by
  refine if_neg ?_
  rw [hword]
  cases rest with
  | nil => exact Bool.false_ne_true
  | cons d rest =>
    have hd : d ≠ c := by simpa using hrest d rfl
    simp [hd.symm]

/-! ### Quoted texts -/

/-- The text up to the quote `q` that ends it. Two quotes in a row stand for one in the text. -/
def readToQuote (q : Char) : Reader (List Char)
  | [] => none
  | [c] => if c = q then some ([], []) else none
  | c :: d :: rest =>
    if c = q then
      if d = q then (readToQuote q rest).map (Prod.map (q :: ·) id) else some ([], d :: rest)
    else (readToQuote q (d :: rest)).map (Prod.map (c :: ·) id)

theorem readToQuote_cons {q c : Char} (hc : c ≠ q) (s : List Char) :
    readToQuote q (c :: s) = (readToQuote q s).map (Prod.map (c :: ·) id) := by
  cases s with
  | nil => exact if_neg hc
  | cons d rest => exact if_neg hc

theorem readToQuote_doubled {q : Char} {rest : List Char} (hrest : Stops (· == q) rest)
    (s : List Char) : readToQuote q (doubled q s ++ q :: rest) = some (s, rest) := by
  induction s with
  | nil =>
    cases rest with
    | nil => exact if_pos rfl
    | cons d rest =>
      have hd : d ≠ q := by simpa using hrest d rfl
      exact (if_pos rfl).trans (if_neg hd)
  | cons c s ih =>
    unfold doubled
    split
    case isTrue hc =>
      subst hc
      show readToQuote c (c :: c :: (doubled c s ++ c :: rest)) = _
      rw [readToQuote, if_pos rfl, if_pos rfl, ih]
      rfl
    case isFalse hc =>
      rw [List.cons_append, readToQuote_cons hc, ih]
      rfl

/-- A text between two quotes `q`. -/
def readQuoted (q : Char) : Reader (List Char)
  | [] => none
  | c :: s => if c = q then readToQuote q s else none

/-- Exactly the quoted text is taken, whatever comes behind but another quote. -/
theorem readQuoted_enclosed {q : Char} {rest : List Char} (hrest : Stops (· == q) rest)
    (s : List Char) : readQuoted q (enclosed q s ++ rest) = some (s, rest) := by
  unfold enclosed
  rw [List.append_assoc, List.cons_append, readQuoted, if_pos rfl]
  exact readToQuote_doubled hrest s

def readLiteral : Reader String := fun s => do
  let (t, s) ← readQuoted '\'' s
  some (String.ofList t, s)

theorem readLiteral_literal {rest : List Char} (hrest : Stops (· == '\'') rest) (s : String) :
    readLiteral (literal s ++ rest) = some (s, rest) := by
  refine Option.bind_eq_some_iff.2 ⟨_, readQuoted_enclosed hrest s.toList, ?_⟩
  exact congrArg (fun t => some (t, rest)) String.ofList_toList

/-! ### Rows -/

/-- One item or more with a separator between any two, at most so many. -/
def readItems {α : Type} (sep : String) (item : Reader α) : Nat → Reader (List α)
  | 0, _ => none
  | n + 1, s => do
    let (a, s) ← item s
    match expect sep s with
    | none => some ([a], s)
    | some s => do
      let (as, s) ← readItems sep item n s
      some (a :: as, s)

/-- A row reads back if its items do before a separator and at the end of the row. -/
theorem readItems_joined {α : Type} {sep : String} {item : Reader α} {write : α → List Char}
    {rest : List Char}
    (hsep : ∀ a r, item (write a ++ (sep.toList ++ r)) = some (a, sep.toList ++ r))
    (hlast : ∀ a, item (write a ++ rest) = some (a, rest)) (hend : expect sep rest = none)
    {as : List α} (hne : as ≠ []) {n : Nat} (hn : as.length ≤ n) :
    readItems sep item n (joined sep.toList (as.map write) ++ rest) = some (as, rest) := by
  induction as generalizing n with
  | nil => exact absurd rfl hne
  | cons a as ih =>
    cases n with
    | zero => cases hn
    | succ n =>
      cases as with
      | nil =>
        refine Option.bind_eq_some_iff.2 ⟨_, hlast a, ?_⟩
        simp only [hend]
      | cons b as =>
        have hrow : joined sep.toList ((a :: b :: as).map write) ++ rest =
            write a ++ (sep.toList ++ (joined sep.toList ((b :: as).map write) ++ rest)) := by
          simp [joined]
        rw [hrow]
        refine Option.bind_eq_some_iff.2 ⟨_, hsep a _, ?_⟩
        simp only [expect_self]
        rw [ih (by simp) (Nat.le_of_succ_le_succ hn)]
        rfl

theorem length_le_length_joined {sep : List Char} {ps : List (List Char)}
    (h : ∀ p ∈ ps, p ≠ []) : ps.length ≤ (joined sep ps).length := by
  fun_induction joined sep ps with
  | case1 => simp
  | case2 p =>
    have hp := List.length_pos_iff.2 (h p List.mem_cons_self)
    exact hp
  | case3 p q ps ih =>
    have hp := List.length_pos_iff.2 (h p List.mem_cons_self)
    have hps := ih fun r hr => h r (List.mem_cons_of_mem p hr)
    simp only [List.length_cons, List.length_append] at hps ⊢
    omega

/-- The length of the text is enough for the items in it. -/
theorem readItems_row {α : Type} {sep : String} {item : Reader α} {write : α → List Char}
    {rest : List Char} (hwrite : ∀ a, write a ≠ [])
    (hsep : ∀ a r, item (write a ++ (sep.toList ++ r)) = some (a, sep.toList ++ r))
    (hlast : ∀ a, item (write a ++ rest) = some (a, rest)) (hend : expect sep rest = none)
    {as : List α} (hne : as ≠ []) :
    readItems sep item (joined sep.toList (as.map write) ++ rest).length
      (joined sep.toList (as.map write) ++ rest) = some (as, rest) := by
  have hlen : (as.map write).length ≤ (joined sep.toList (as.map write)).length := by
    refine length_le_length_joined fun p hp => ?_
    obtain ⟨a, _, rfl⟩ := List.mem_map.1 hp
    exact hwrite a
  rw [List.length_map] at hlen
  exact readItems_joined hsep hlast hend hne
    (Nat.le_trans hlen (by rw [List.length_append]; exact Nat.le_add_right _ _))

/-- The parts of a name, each in double quotes. -/
def readName : Reader (List (List Char)) := fun s => readItems "." (readQuoted '"') s.length s

/-- The parts that a name has between its dots, without blanks around them. -/
def nameParts (name : String) : List (List Char) := (parts '.' name.toList).map trim

theorem identifier_eq (name : String) :
    identifier name = joined ".".toList ((nameParts name).map (enclosed '"')) := by
  unfold identifier nameParts
  rw [List.map_map]
  rfl

theorem nameParts_ne_nil (name : String) : nameParts name ≠ [] := by
  simpa [nameParts] using parts_ne_nil '.' name.toList

/-- Exactly the name is taken, whatever comes behind but a dot or a quote. -/
theorem readName_identifier {rest : List Char} (hquote : Stops (· == '"') rest)
    (hdot : Stops (· == '.') rest) (name : String) :
    readName (identifier name ++ rest) = some (nameParts name, rest) := by
  rw [identifier_eq]
  exact readItems_row (by simp [enclosed]) (fun a r => readQuoted_enclosed (stops_cons rfl) a)
    (readQuoted_enclosed hquote) (expect_of_stops rfl hdot) (nameParts_ne_nil name)

/-- Texts in single quotes between brackets, none or more. -/
def readTextArray : Reader (List String) := fun s => do
  let s ← expect "ARRAY[" s
  match expect "]::text[]" s with
  | some s => some ([], s)
  | none => do
    let (items, s) ← readItems "," readLiteral s.length s
    let s ← expect "]::text[]" s
    some (items, s)

/-- Exactly the array is taken, whatever comes behind. -/
theorem readTextArray_textArray (items : List String) (rest : List Char) :
    readTextArray (textArray items ++ rest) = some (items, rest) := by
  unfold textArray readTextArray
  rw [List.append_assoc, List.append_assoc]
  refine Option.bind_eq_some_iff.2 ⟨_, expect_self "ARRAY[" _, ?_⟩
  cases items with
  | nil =>
    have hend : expect "]::text[]" (joined [','] (([] : List String).map literal) ++
        ("]::text[]".toList ++ rest)) = some rest := expect_self _ _
    simp only [hend]
  | cons item items =>
    have hfirst : expect "]::text[]" (joined [','] ((item :: items).map literal) ++
        ("]::text[]".toList ++ rest)) = none := by
      refine expect_of_stops rfl ?_
      cases items <;> exact stops_cons rfl
    have hrow : readItems "," readLiteral (joined ",".toList ((item :: items).map literal) ++
        ("]::text[]".toList ++ rest)).length (joined ",".toList ((item :: items).map literal) ++
          ("]::text[]".toList ++ rest)) = some (item :: items, "]::text[]".toList ++ rest) :=
      readItems_row (by simp [literal, enclosed])
        (fun a r => readLiteral_literal (stops_cons rfl) a)
        (readLiteral_literal (stops_cons rfl)) rfl (List.cons_ne_nil item items)
    simp only [hfirst]
    refine Option.bind_eq_some_iff.2 ⟨_, hrow, ?_⟩
    exact Option.bind_eq_some_iff.2 ⟨_, expect_self "]::text[]" rest, rfl⟩

/-! ### Other values -/

/-- A text in single quotes that is marked as an instant. -/
def readMarked : Reader (List Char) := fun s => do
  let (t, s) ← readQuoted '\'' s
  let s ← expect "::timestamptz" s
  some (t, s)

def readTimestamp : Reader Instant := fun s => do
  let (t, s) ← readMarked s
  let t ← (Instant.read t).toOption
  some (t, s)

def readStamp : Reader Stamp := fun s => do
  let (t, s) ← readMarked s
  if t = "<now>".toList then some (.clock, s)
  else do
    let t ← (Instant.read t).toOption
    some (.told t, s)

def readOptionalText : Reader (Option String) := fun s =>
  match expect "NULL" s with
  | some s => some (none, s)
  | none => do
    let (t, s) ← readLiteral s
    some (some t, s)

def readDigits : Reader Nat := fun s =>
  match s.takeWhile isDigit with
  | [] => none
  | d :: ds => some (value (d :: ds), s.dropWhile isDigit)

def readInteger : Reader Int := fun s =>
  match expect "-" s with
  | some s => do
    let (n, s) ← readDigits s
    some (-(n : Int), s)
  | none => do
    let (n, s) ← readDigits s
    some ((n : Int), s)

theorem doubled_of_notMem {q : Char} {s : List Char} (h : q ∉ s) : doubled q s = s := by
  induction s with
  | nil => rfl
  | cons c s ih =>
    obtain ⟨hc, hs⟩ := List.ne_and_not_mem_of_not_mem_cons h
    rw [doubled, if_neg (Ne.symm hc), ih hs]

theorem readMarked_enclosed (s rest : List Char) :
    readMarked (enclosed '\'' s ++ ("::timestamptz".toList ++ rest)) = some (s, rest) := by
  refine Option.bind_eq_some_iff.2 ⟨_, readQuoted_enclosed (stops_cons rfl) s, ?_⟩
  exact Option.bind_eq_some_iff.2 ⟨_, expect_self "::timestamptz" rest, rfl⟩

theorem timestamp_eq (t : Instant) (rest : List Char) :
    timestamp t ++ rest = enclosed '\'' t.chars ++ ("::timestamptz".toList ++ rest) := by
  unfold timestamp enclosed
  rw [doubled_of_notMem (Instant.notMem_chars rfl t)]
  simp

theorem readTimestamp_timestamp {t : Instant} (ht : t.Readable) (rest : List Char) :
    readTimestamp (timestamp t ++ rest) = some (t, rest) := by
  rw [timestamp_eq]
  refine Option.bind_eq_some_iff.2 ⟨_, readMarked_enclosed t.chars rest, ?_⟩
  dsimp only
  rw [Instant.read_chars (Instant.readable_iff.1 ht)]
  rfl

theorem readStamp_stamp {t : Stamp} (ht : t.Readable) (rest : List Char) :
    readStamp (stamp t ++ rest) = some (t, rest) := by
  unfold readStamp
  cases t with
  | clock =>
    refine Option.bind_eq_some_iff.2 ⟨_, readMarked_enclosed "<now>".toList rest, ?_⟩
    exact if_pos rfl
  | told t =>
    have hchars : t.chars ≠ "<now>".toList := by
      intro h
      have hmem : '<' ∈ t.chars := by
        rw [h]
        exact List.mem_cons_self
      exact Instant.notMem_chars rfl t hmem
    have hread : Instant.read t.chars = .ok t := Instant.read_chars (Instant.readable_iff.1 ht)
    have hstamp : stamp (.told t) = timestamp t := rfl
    rw [hstamp, timestamp_eq]
    refine Option.bind_eq_some_iff.2 ⟨_, readMarked_enclosed t.chars rest, ?_⟩
    simp only [if_neg hchars, hread]
    rfl

/-- The word for no text is not in quotes. -/
theorem readOptionalText_optionalText (s : Option String) {rest : List Char}
    (hrest : Stops (· == '\'') rest) :
    readOptionalText (optionalText s ++ rest) = some (s, rest) := by
  unfold readOptionalText
  cases s with
  | none =>
    have hnull : expect "NULL" (optionalText none ++ rest) = some rest := expect_self _ _
    simp only [hnull]
  | some s =>
    have hquote : expect "NULL" (optionalText (some s) ++ rest) = none :=
      expect_of_stops rfl (stops_cons rfl)
    simp only [hquote]
    exact Option.bind_eq_some_iff.2 ⟨_, readLiteral_literal hrest s, rfl⟩

theorem readDigits_decimal (n : Nat) {rest : List Char} (hrest : Stops isDigit rest) :
    readDigits (decimal n ++ rest) = some (n, rest) := by
  have hds : ∀ c ∈ decimal n, isDigit c = true := fun c => isDigit_of_mem_decimal
  unfold readDigits
  rw [takeWhile_append_of_stops hds hrest, dropWhile_append_of_stops hds hrest]
  cases h : decimal n with
  | nil => exact absurd h (decimal_ne_nil n)
  | cons d ds =>
    have hvalue := value_decimal n
    rw [h] at hvalue
    simp only [hvalue]

theorem readInteger_integer (n : Int) {rest : List Char} (hrest : Stops isDigit rest) :
    readInteger (integer n ++ rest) = some (n, rest) := by
  unfold integer signed
  split
  case isTrue hneg =>
    unfold readInteger
    have hsign : expect "-" ('-' :: decimal n.natAbs ++ rest) = some (decimal n.natAbs ++ rest) :=
      expect_self "-" _
    simp only [hsign]
    refine Option.bind_eq_some_iff.2 ⟨_, readDigits_decimal n.natAbs hrest, ?_⟩
    have hback : -(n.natAbs : Int) = n := by omega
    exact congrArg (fun n => some (n, rest)) hback
  case isFalse hpos =>
    have hminus : ∀ c, isDigit c = true → (c == '-') = false := by
      intro c hc
      refine beq_eq_false_iff_ne.2 fun h => ?_
      subst h
      cases hc
    have hsign : expect "-" (decimal n.natAbs ++ rest) = none :=
      expect_of_stops rfl
        (stops_of_digits hminus (decimal_ne_nil _) fun c => isDigit_of_mem_decimal)
    unfold readInteger
    simp only [hsign]
    refine Option.bind_eq_some_iff.2 ⟨_, readDigits_decimal n.natAbs hrest, ?_⟩
    have hback : (n.natAbs : Int) = n := by omega
    exact congrArg (fun n => some (n, rest)) hback

end PinLedger.Sql
