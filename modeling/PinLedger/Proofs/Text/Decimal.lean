import Mathlib.Algebra.GroupWithZero.Nat
import Mathlib.Data.List.Induction
import PinLedger.Text.Blank
import PinLedger.Text.Decimal

/-!
# PinLedger.Proofs.Text.Decimal

Decimal digits read back. The digits of a number are digits and stand for it, with or without zeros
in front, and a run of digits ends where no digit follows.

* `value_decimal`, `value_padded` — the number that written digits stand for
* `value_lt` — so many digits stand for a number below that power of ten
* `takeWhile_append_of_stops`, `dropWhile_append_of_stops` — where a run of characters ends
-/

namespace PinLedger.Text

/-! ### Runs of characters -/

/-- A text does not go on with a character of this kind. -/
def Stops (p : Char → Bool) (rest : List Char) : Prop := ∀ c ∈ rest.head?, p c = false

theorem stops_nil (p : Char → Bool) : Stops p [] := nofun

theorem stops_cons {p : Char → Bool} {c : Char} {rest : List Char} (h : p c = false) :
    Stops p (c :: rest) := by
  rintro _ ⟨⟩
  exact h

theorem Stops.take {p : Char → Bool} {rest : List Char} (h : Stops p rest) (n : Nat) :
    Stops p (rest.take n) := by
  cases rest with
  | nil =>
    rw [List.take_nil]
    exact h
  | cons c rest =>
    cases n with
    | zero => exact stops_nil p
    | succ n => exact stops_cons (h c rfl)

theorem takeWhile_append_of_stops {p : Char → Bool} {ds rest : List Char}
    (hds : ∀ c ∈ ds, p c = true) (h : Stops p rest) : (ds ++ rest).takeWhile p = ds := by
  rw [List.takeWhile_append_of_pos hds]
  cases rest with
  | nil => exact List.append_nil ds
  | cons c rest => rw [List.takeWhile_cons_of_neg (by simp [h c rfl]), List.append_nil]

theorem dropWhile_of_stops {p : Char → Bool} {rest : List Char} (h : Stops p rest) :
    rest.dropWhile p = rest := by
  cases rest with
  | nil => rfl
  | cons c rest => exact List.dropWhile_cons_of_neg (by simp [h c rfl])

theorem dropWhile_append_of_stops {p : Char → Bool} {ds rest : List Char}
    (hds : ∀ c ∈ ds, p c = true) (h : Stops p rest) : (ds ++ rest).dropWhile p = rest := by
  rw [List.dropWhile_append_of_pos hds, dropWhile_of_stops h]

/-- Nothing is trimmed from a text that does not start with a blank. -/
theorem trimStart_of_stops {s : List Char} (h : Stops isBlank s) : trimStart s = s :=
  dropWhile_of_stops h

/-! ### Digits -/

theorem digitValue?_digit (n : Nat) : digitValue? (digit n) = some (n % 10) := by
  have hten : ∀ d < 10, digitValue? (Char.ofNat (48 + d)) = some d := by decide
  exact hten (n % 10) (Nat.mod_lt n (by decide))

theorem isDigit_digit (n : Nat) : isDigit (digit n) = true := by
  unfold isDigit
  rw [digitValue?_digit]
  rfl

theorem digitValue?_lt {c : Char} {n : Nat} (h : digitValue? c = some n) : n < 10 := by
  unfold digitValue? at h
  split at h
  case isFalse => cases h
  case isTrue hc =>
    cases h
    have hle : c.toNat ≤ '9'.toNat := hc.2
    have hnine : '9'.toNat = 57 := rfl
    omega

theorem isBlank_of_isDigit (c : Char) (h : isDigit c = true) : isBlank c = false := by
  unfold isDigit digitValue? at h
  split at h
  case isFalse => cases h
  case isTrue hc =>
    have hge : '0'.toNat ≤ c.toNat := hc.1
    have hle : c.toNat ≤ '9'.toNat := hc.2
    have hzero : '0'.toNat = 48 := rfl
    have hnine : '9'.toNat = 57 := rfl
    simp only [isBlank, Bool.or_eq_false_iff, Bool.and_eq_false_iff, decide_eq_false_iff_not,
      beq_eq_false_iff_ne]
    omega

theorem value_concat (ds : List Char) (c : Char) :
    value (ds ++ [c]) = 10 * value ds + (digitValue? c).getD 0 := by
  unfold value
  rw [List.foldl_append]
  rfl

/-- So many digits stand for a number below that power of ten. -/
theorem value_lt (ds : List Char) : value ds < 10 ^ ds.length := by
  induction ds using List.reverseRecOn with
  | nil => decide
  | append_singleton ds c ih =>
    have hc : (digitValue? c).getD 0 < 10 := by
      cases h : digitValue? c with
      | none => decide
      | some n => exact digitValue?_lt h
    rw [value_concat, List.length_append, List.length_singleton, Nat.pow_succ]
    omega

theorem isDigit_of_mem_decimal {n : Nat} {c : Char} (h : c ∈ decimal n) : isDigit c = true := by
  fun_induction decimal n with
  | case1 n _ =>
    rw [List.mem_singleton] at h
    exact h ▸ isDigit_digit n
  | case2 n _ ih =>
    rcases List.mem_append.1 h with h | h
    · exact ih h
    · rw [List.mem_singleton] at h
      exact h ▸ isDigit_digit n

theorem decimal_ne_nil (n : Nat) : decimal n ≠ [] := by
  unfold decimal
  split <;> simp

theorem value_decimal (n : Nat) : value (decimal n) = n := by
  fun_induction decimal n with
  | case1 n hn =>
    show 10 * 0 + (digitValue? (digit n)).getD 0 = n
    rw [digitValue?_digit, Option.getD_some]
    omega
  | case2 n _ ih =>
    rw [value_concat, ih, digitValue?_digit, Option.getD_some]
    omega

theorem isDigit_of_mem_padded {w n : Nat} {c : Char} (h : c ∈ padded w n) :
    isDigit c = true := by
  induction w generalizing n with
  | zero => cases h
  | succ w ih =>
    rcases List.mem_append.1 h with h | h
    · exact ih h
    · rw [List.mem_singleton] at h
      exact h ▸ isDigit_digit n

theorem value_padded (w n : Nat) : value (padded w n) = n % 10 ^ w := by
  induction w generalizing n with
  | zero => exact (Nat.mod_one n).symm
  | succ w ih =>
    rw [padded, value_concat, ih, digitValue?_digit, Option.getD_some, Nat.pow_succ,
      Nat.mul_comm (10 ^ w) 10, Nat.mod_mul]
    omega

theorem value_padded_of_lt {w n : Nat} (h : n < 10 ^ w) : value (padded w n) = n := by
  rw [value_padded, Nat.mod_eq_of_lt h]

theorem padded_ne_nil {w n : Nat} (h : 0 < w) : padded w n ≠ [] := by
  intro hnil
  have hlen := length_padded w n
  rw [hnil] at hlen
  cases hlen
  cases h

/-- A text that starts with a digit does not go on with what is no digit. -/
theorem stops_of_digits {p : Char → Bool} (hp : ∀ c, isDigit c = true → p c = false)
    {ds rest : List Char} (hne : ds ≠ []) (hds : ∀ c ∈ ds, isDigit c = true) :
    Stops p (ds ++ rest) := by
  cases ds with
  | nil => exact absurd rfl hne
  | cons d ds => exact stops_cons (hp d (hds d List.mem_cons_self))

end PinLedger.Text
