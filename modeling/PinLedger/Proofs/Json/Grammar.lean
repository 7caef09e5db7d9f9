import PinLedger.Json.Token
import PinLedger.Proofs.Text.Decimal
import PinLedger.Text.Parts

/-!
# PinLedger.Proofs.Json.Grammar

The grammar of documents, apart from any reader.

* `IsString`, `Spells` — what may stand between quotes, and the text that it spells
* `IsNumber` — numbers of any size
* `Padded`, `Member`, `IsValue` — elements of any kind and depth, with blanks around their parts
* `Ends` — a text before which an element ends, whatever its kind
* `separated` — elements with commas, begun or gone on with
-/

namespace PinLedger.Json

open Text

def Blank (s : List Char) : Prop := ∀ c ∈ s, isBlank c = true

/-- What stands after a backslash, and the character it stands for. -/
def shortEscapes : List (Char × Char) :=
  [('"', '"'), ('\\', '\\'), ('/', '/'), ('b', '\x08'), ('f', '\x0c'), ('n', '\n'), ('r', '\r'),
    ('t', '\t')]

/-- The number of four hexadecimal digits. -/
def codeUnit? (a b c d : Char) : Option Nat :=
  match hexValue? a, hexValue? b, hexValue? c, hexValue? d with
  | some a, some b, some c, some d => some (((a * 16 + b) * 16 + c) * 16 + d)
  | _, _, _, _ => none

/-- What may stand between quotes. An escape may be half of a character. -/
inductive IsString : List Char → Prop
  | nil : IsString []
  | plain {c : Char} {s : List Char} (hquote : c ≠ '"') (hslash : c ≠ '\\') (hc : 32 ≤ c.toNat)
      (h : IsString s) : IsString (c :: s)
  | escape {c e : Char} {s : List Char} (he : (c, e) ∈ shortEscapes) (h : IsString s) :
      IsString ('\\' :: c :: s)
  | unit {a b c d : Char} {n : Nat} {s : List Char} (hn : codeUnit? a b c d = some n)
      (h : IsString s) : IsString ('\\' :: 'u' :: a :: b :: c :: d :: s)

/-- What stands between quotes, and the text that it spells. -/
inductive Spells : List Char → List Char → Prop
  | nil : Spells [] []
  | plain {c : Char} {s t : List Char} (hquote : c ≠ '"') (hslash : c ≠ '\\') (hc : 32 ≤ c.toNat)
      (h : Spells s t) : Spells (c :: s) (c :: t)
  | escape {c e : Char} {s t : List Char} (he : (c, e) ∈ shortEscapes) (h : Spells s t) :
      Spells ('\\' :: c :: s) (e :: t)
  | unit {a b c d : Char} {n : Nat} {s t : List Char} (hn : codeUnit? a b c d = some n)
      (hlead : isLeadingSurrogate n = false) (htrail : isTrailingSurrogate n = false)
      (h : Spells s t) : Spells ('\\' :: 'u' :: a :: b :: c :: d :: s) (Char.ofNat n :: t)
  | pair {a b c d a' b' c' d' : Char} {n n' : Nat} {s t : List Char}
      (hn : codeUnit? a b c d = some n) (hlead : isLeadingSurrogate n = true)
      (hn' : codeUnit? a' b' c' d' = some n') (htrail : isTrailingSurrogate n' = true)
      (h : Spells s t) :
      Spells ('\\' :: 'u' :: a :: b :: c :: d :: '\\' :: 'u' :: a' :: b' :: c' :: d' :: s)
        (Char.ofNat ((n - 0xD800) * 1024 + (n' - 0xDC00) + 0x10000) :: t)

/-! ### Numbers -/

def Digits (ds : List Char) : Prop := ds ≠ [] ∧ ∀ c ∈ ds, isDigit c = true

/-- A zero, or digits of which the first is none. -/
def IsInteger (s : List Char) : Prop :=
  s = ['0'] ∨ ∃ c ds, isDigit c = true ∧ c ≠ '0' ∧ (∀ d ∈ ds, isDigit d = true) ∧ s = c :: ds

def IsFraction (s : List Char) : Prop := s = [] ∨ ∃ ds, Digits ds ∧ s = '.' :: ds

def IsSign (s : List Char) : Prop := s = [] ∨ s = ['+'] ∨ s = ['-']

def IsExponent (s : List Char) : Prop :=
  s = [] ∨ ∃ e sign ds, (e = 'e' ∨ e = 'E') ∧ IsSign sign ∧ Digits ds ∧ s = e :: (sign ++ ds)

/-- A number of any size. -/
def IsNumber (s : List Char) : Prop :=
  ∃ minus int frac exp, (minus = [] ∨ minus = ['-']) ∧ IsInteger int ∧ IsFraction frac ∧
    IsExponent exp ∧ s = minus ++ (int ++ (frac ++ exp))

/-! ### Elements -/

/-- A text with blanks around it. -/
structure Padded where
  before : List Char
  body : List Char
  after : List Char
  blank_before : Blank before
  blank_after : Blank after

def Padded.text (p : Padded) : List Char := p.before ++ (p.body ++ p.after)

/-- A text without blanks around it. -/
def Padded.bare (s : List Char) : Padded :=
  ⟨[], s, [], List.forall_mem_nil _, List.forall_mem_nil _⟩

/-- A member of an object: what stands between the quotes of its key, and its value. -/
structure Member where
  key : Padded
  value : Padded

def Member.text (m : Member) : List Char :=
  m.key.before ++ '"' :: (m.key.body ++ '"' :: (m.key.after ++ ':' :: m.value.text))

/-- A list, in which blanks come first. -/
def listText (gap : List Char) (items : List Padded) : List Char :=
  '[' :: (gap ++ (joined [','] (items.map Padded.text) ++ [']']))

/-- An object, in which blanks come first. -/
def objectText (gap : List Char) (members : List Member) : List Char :=
  '\x7b' :: (gap ++ (joined [','] (members.map Member.text) ++ ['\x7d']))

/-- An element of any kind and any depth. -/
inductive IsValue : List Char → Prop
  | null : IsValue ['n', 'u', 'l', 'l']
  | yes : IsValue ['t', 'r', 'u', 'e']
  | no : IsValue ['f', 'a', 'l', 's', 'e']
  | number {s : List Char} (h : IsNumber s) : IsValue s
  | text {s : List Char} (h : IsString s) : IsValue ('"' :: (s ++ ['"']))
  | list {gap : List Char} {items : List Padded} (hgap : Blank gap)
      (h : ∀ p ∈ items, IsValue p.body) : IsValue (listText gap items)
  | object {gap : List Char} {members : List Member} (hgap : Blank gap)
      (hkeys : ∀ m ∈ members, IsString m.key.body) (h : ∀ m ∈ members, IsValue m.value.body) :
      IsValue (objectText gap members)

/-! ### Blanks -/

variable {s rest : List Char}

@[simp] theorem blank_nil : Blank [] := List.forall_mem_nil _

theorem Blank.append {s t : List Char} (hs : Blank s) (ht : Blank t) : Blank (s ++ t) := by
  intro c hc
  rcases List.mem_append.1 hc with hc | hc
  · exact hs c hc
  · exact ht c hc

theorem skipBlank_append (h : Blank s) (rest : List Char) :
    skipBlank (s ++ rest) = skipBlank rest :=
  List.dropWhile_append_of_pos h

theorem skipBlank_cons {c : Char} (h : isBlank c = false) (rest : List Char) :
    skipBlank (c :: rest) = c :: rest :=
  List.dropWhile_cons_of_neg (by simp [h])

/-! ### Ends -/

def isEnd (c : Char) : Bool := isBlank c || c = ',' || c = ']' || c = '\x7d'

/-- A text before which an element ends, whatever its kind. -/
def Ends (rest : List Char) : Prop := ∀ c ∈ rest.head?, isEnd c = true

theorem ends_nil : Ends [] := nofun

theorem ends_cons {c : Char} (h : isEnd c = true) (rest : List Char) : Ends (c :: rest) := by
  rintro _ ⟨⟩
  exact h

theorem Ends.append {gap : List Char} (hgap : Blank gap) (h : Ends rest) : Ends (gap ++ rest) := by
  cases gap with
  | nil => exact h
  | cons c gap =>
    refine ends_cons ?_ _
    unfold isEnd
    rw [hgap c List.mem_cons_self]
    rfl

/-- The characters at which an element ends are few. -/
theorem of_isEnd {p : Char → Bool} {c : Char}
    (hp : [' ', '\n', '\t', '\r', ',', ']', '\x7d'].any p = false) (h : isEnd c = true) :
    p c = false := by
  rw [← Bool.not_eq_true]
  refine List.any_eq_false.1 hp c ?_
  simp only [isEnd, isBlank, Bool.or_eq_true, decide_eq_true_eq] at h
  simp only [List.mem_cons, List.not_mem_nil]
  tauto

theorem Ends.stops {p : Char → Bool}
    (hp : [' ', '\n', '\t', '\r', ',', ']', '\x7d'].any p = false) (h : Ends rest) : Stops p rest :=
  fun c hc => of_isEnd hp (h c hc)

theorem Ends.stops_isDigit (h : Ends rest) : Stops isDigit rest := h.stops rfl

/-! ### Separated elements -/

/-- Elements with commas between them, and one before the first if others came before. -/
def separated : (first : Bool) → List (List Char) → List Char
  | _, [] => []
  | first, s :: rest => (if first then s else ',' :: s) ++ separated false rest

theorem joined_eq_separated (l : List (List Char)) : joined [','] l = separated true l := by
  induction l with
  | nil => rfl
  | cons s l ih =>
    cases l with
    | nil => exact (List.append_nil s).symm
    | cons t l =>
      rw [joined, ih]
      simp [separated]

/-- What comes after an element ends it. -/
theorem ends_separated {c : Char} (hc : isEnd c = true) (l : List (List Char)) (rest : List Char) :
    Ends (separated false l ++ c :: rest) := by
  cases l with
  | nil => exact ends_cons hc rest
  | cons s l => exact ends_cons rfl _

/-! ### Starts of elements -/

/-- An element starts with a character that tells it from blanks, commas and closing brackets. -/
def Starts (s : List Char) : Prop := ∃ c t, s = c :: t ∧ isEnd c = false

theorem isEnd_of_isDigit {c : Char} (h : isDigit c = true) : isEnd c = false := by
  rw [← Bool.not_eq_true]
  intro hend
  exact absurd h (Bool.eq_false_iff.1 (of_isEnd rfl hend))

theorem IsInteger.digits (h : IsInteger s) : Digits s := by
  rcases h with rfl | ⟨c, ds, hc, _, hds, rfl⟩
  · exact ⟨nofun, by simp [isDigit, digitValue?]⟩
  · refine ⟨nofun, ?_⟩
    intro d hd
    rcases List.mem_cons.1 hd with rfl | hd
    · exact hc
    · exact hds d hd

/-- A number starts with a digit or a minus sign. -/
theorem IsNumber.starts (h : IsNumber s) : ∃ c t, s = c :: t ∧ (c = '-' ∨ isDigit c = true) := by
  obtain ⟨minus, int, frac, exp, hminus, hint, _, _, rfl⟩ := h
  obtain ⟨hne, hdigits⟩ := hint.digits
  rcases hminus with rfl | rfl
  · cases int with
    | nil => exact absurd rfl hne
    | cons c int => exact ⟨c, _, rfl, .inr (hdigits c List.mem_cons_self)⟩
  · exact ⟨'-', _, rfl, .inl rfl⟩

theorem IsValue.starts (h : IsValue s) : Starts s := by
  cases h with
  | null => exact ⟨_, _, rfl, rfl⟩
  | yes => exact ⟨_, _, rfl, rfl⟩
  | no => exact ⟨_, _, rfl, rfl⟩
  | number h =>
    obtain ⟨c, t, rfl, hc⟩ := h.starts
    refine ⟨c, t, rfl, ?_⟩
    rcases hc with rfl | hc
    · rfl
    · exact isEnd_of_isDigit hc
  | text _ => exact ⟨_, _, rfl, rfl⟩
  | list _ _ => exact ⟨_, _, rfl, rfl⟩
  | object _ _ _ => exact ⟨_, _, rfl, rfl⟩

theorem Starts.skipBlank (h : Starts s) {gap : List Char} (hgap : Blank gap) (rest : List Char) :
    skipBlank (gap ++ (s ++ rest)) = s ++ rest := by
  obtain ⟨c, t, rfl, hc⟩ := h
  have hblank : isBlank c = false := by
    simp only [isEnd, Bool.or_eq_false_iff] at hc
    exact hc.1.1.1
  rw [skipBlank_append hgap]
  exact skipBlank_cons hblank _

end PinLedger.Json
