import PinLedger.Proofs.Failing
import PinLedger.Proofs.Text.Decimal
import PinLedger.Proofs.Time.Calendar
import PinLedger.Time.Reader
import PinLedger.Time.Text

/-!
# PinLedger.Proofs.Time.Text

The text of an instant reads back as the instant. A leap second can be written only as second 60, so
this holds of those instants that have their leap second at the end of a minute, and these are the
instants that texts name at all.

* `Instant.read_chars` — the instant of the text of an instant
* `Instant.readable_iff` — which instants there are texts for
-/

namespace PinLedger

open Text

namespace Instant

/-! ### The parts of the text -/

theorem readNumber_digits {width : Nat} {ds rest : List Char} (hne : ds ≠ [])
    (hds : ∀ c ∈ ds, isDigit c = true) (hlen : ds.length ≤ width) (hstop : Stops isDigit rest)
    (hlt : value ds < signLimit 64) : readNumber width (ds ++ rest) = .ok (value ds, rest) := by
  have htake : ((ds ++ rest).take width).takeWhile isDigit = ds := by
    rw [List.take_append, List.take_of_length_le hlen]
    exact takeWhile_append_of_stops hds (hstop.take _)
  unfold readNumber
  rw [htake]
  cases ds with
  | nil => exact absurd rfl hne
  | cons d ds =>
    simp only [List.cons_append, if_pos hlt]
    rw [← List.cons_append, List.drop_left]

theorem readNumber_padded {width n : Nat} {rest : List Char} (hwidth : 0 < width)
    (hlow : 10 ^ width ≤ signLimit 64) (hn : n < 10 ^ width) (hstop : Stops isDigit rest) :
    readNumber width (padded width n ++ rest) = .ok (n, rest) := by
  have hvalue := value_padded_of_lt hn
  rw [readNumber_digits (padded_ne_nil hwidth) (fun c => isDigit_of_mem_padded)
    (Nat.le_of_eq (length_padded width n)) hstop (by omega), hvalue]

theorem readField_padded {lo hi n : Nat} {rest : List Char} (hlo : lo ≤ n) (hhi : n ≤ hi)
    (hn : n < 100) (hstop : Stops isDigit rest) :
    readField lo hi (padded 2 n ++ rest) = .ok (n, rest) := by
  unfold readField
  rw [trimStart_of_stops (stops_of_digits isBlank_of_isDigit (padded_ne_nil (by decide))
    fun c => isDigit_of_mem_padded), readNumber_padded (by decide) (by decide) hn hstop]
  exact if_pos ⟨hlo, hhi⟩

theorem readMark_self (c : Char) (rest : List Char) (hc : isBlank c = false) :
    readMark c (trimStart (c :: rest)) = .ok ((), rest) := by
  rw [trimStart_of_stops (stops_cons hc)]
  exact if_pos rfl

theorem readNumber_decimal {width n : Nat} {rest : List Char}
    (hlen : (decimal n).length ≤ width) (hn : n < signLimit 64) (hstop : Stops isDigit rest) :
    readNumber width (decimal n ++ rest) = .ok (n, rest) := by
  rw [readNumber_digits (decimal_ne_nil n) (fun c => isDigit_of_mem_decimal) hlen hstop
    (by rwa [value_decimal]), value_decimal]

/-- Behind a sign the digits of a year go up to the first character that is none. -/
theorem readNumber_yearDigits {n : Nat} {rest : List Char} (hn : n < signLimit 64)
    (hstop : Stops isDigit rest) :
    let s := (if n < 10000 then padded 4 n else decimal n) ++ rest
    readNumber s.length s = .ok (n, rest) := by
  simp only
  split
  case isTrue hlt =>
    have hvalue := value_padded_of_lt (w := 4) hlt
    rw [readNumber_digits (padded_ne_nil (by decide)) (fun c => isDigit_of_mem_padded)
      (by simp) hstop (by omega), hvalue]
  case isFalse => exact readNumber_decimal (by simp) hn hstop

theorem not_isDigit_of_append_eq {ds rest r : List Char} {c : Char} (hne : ds ≠ [])
    (hds : ∀ c ∈ ds, isDigit c = true) (h : ds ++ rest = c :: r) : isDigit c = true := by
  cases ds with
  | nil => exact absurd rfl hne
  | cons d ds =>
    cases h
    exact hds _ List.mem_cons_self

theorem readYear_digits {n : Nat} {rest : List Char} (hn : n < 10 ^ 4)
    (hstop : Stops isDigit rest) : readYear (padded 4 n ++ rest) = .ok ((n : Int), rest) := by
  have hne : padded 4 n ≠ [] := padded_ne_nil (by decide)
  have hds : ∀ c ∈ padded 4 n, isDigit c = true := fun c => isDigit_of_mem_padded
  have hfits : FitsSigned 32 (n : Int) := by
    have hlow : 10 ^ 4 ≤ signLimit 32 := by decide
    exact ⟨by omega, by omega⟩
  unfold readYear
  rw [trimStart_of_stops (stops_of_digits isBlank_of_isDigit hne hds)]
  dsimp only
  split
  case h_1 r h => exact absurd (not_isDigit_of_append_eq hne hds h) (by decide)
  case h_2 r h => exact absurd (not_isDigit_of_append_eq hne hds h) (by decide)
  case h_3 =>
    refine bind_eq_ok.2 ⟨(n, rest), readNumber_padded (by decide) (by decide) hn hstop, ?_⟩
    exact bind_eq_ok.2 ⟨((n : Int), rest), rfl, if_pos hfits⟩

theorem readYear_signed {year : Int} {rest : List Char} (hyear : FitsSigned 32 year)
    (hstop : Stops isDigit rest) :
    readYear ((if year < 0 then '-' else '+') ::
      ((if year.natAbs < 10000 then padded 4 year.natAbs else decimal year.natAbs) ++ rest)) =
        .ok (year, rest) := by
  have hlt : year.natAbs < signLimit 64 := by
    have hsmall : signLimit 32 < signLimit 64 := by decide
    obtain ⟨hlo, hhi⟩ := hyear
    omega
  have hdigits := readNumber_yearDigits hlt hstop
  unfold readYear
  by_cases hneg : year < 0
  · rw [if_pos hneg, trimStart_of_stops (stops_cons rfl)]
    refine bind_eq_ok.2 ⟨(year.natAbs, rest), hdigits, ?_⟩
    have hsign : -(year.natAbs : Int) = year := by omega
    refine bind_eq_ok.2 ⟨(year, rest), ?_, if_pos hyear⟩
    show Except.ok (-(year.natAbs : Int), rest) = _
    rw [hsign]
  · rw [if_neg hneg, trimStart_of_stops (stops_cons rfl)]
    refine bind_eq_ok.2 ⟨(year.natAbs, rest), hdigits, ?_⟩
    have hsign : (year.natAbs : Int) = year := by omega
    refine bind_eq_ok.2 ⟨(year, rest), ?_, if_pos hyear⟩
    show Except.ok ((year.natAbs : Int), rest) = _
    rw [hsign]

theorem readYear_render {year : Int} {rest : List Char} (hyear : FitsSigned 32 year)
    (hstop : Stops isDigit rest) : readYear (renderYear year ++ rest) = .ok (year, rest) := by
  unfold renderYear
  split
  case isTrue hfour =>
    rw [readYear_digits (by omega) hstop, Int.toNat_of_nonneg hfour.1]
  case isFalse => exact readYear_signed hyear hstop

/-- A fraction of `w` digits counts in units of `unit` nanoseconds. -/
theorem readFraction_padded {w unit nano : Nat} {rest : List Char} (hw : 0 < w) (hwide : w ≤ 9)
    (hunit : Nat.pow 10 (9 - w) = unit) (hwhole : nano % unit = 0) (hlt : nano / unit < 10 ^ w)
    (hstop : Stops isDigit rest) :
    readFraction ('.' :: padded w (nano / unit) ++ rest) = .ok (nano, rest) := by
  have hlow : 10 ^ w ≤ signLimit 64 :=
    Nat.le_trans (Nat.pow_le_pow_right (by decide) hwide) (by decide)
  have hvalue := value_padded_of_lt hlt
  have hdigits : readNumber 9 (padded w (nano / unit) ++ rest) = .ok (nano / unit, rest) := by
    rw [readNumber_digits (padded_ne_nil hw) (fun c => isDigit_of_mem_padded) (by simpa using hwide)
      hstop (by omega), hvalue]
  refine bind_eq_ok.2 ⟨_, hdigits, ?_⟩
  have hlen : (padded w (nano / unit) ++ rest).length - rest.length = w := by simp
  have hdrop : rest.dropWhile isDigit = rest := dropWhile_of_stops hstop
  show Except.ok
    (nano / unit * Nat.pow 10 (9 - ((padded w (nano / unit) ++ rest).length - rest.length)),
      rest.dropWhile isDigit) = _
  rw [hlen, hdrop, hunit, Nat.div_mul_cancel (Nat.dvd_of_mod_eq_zero hwhole)]

theorem readFraction_render {nano : Nat} {rest : List Char} (hnano : nano < nanosPerSecond) :
    readFraction (renderFraction nano ++ 'Z' :: rest) = .ok (nano, 'Z' :: rest) := by
  have hstop : Stops isDigit ('Z' :: rest) := stops_cons rfl
  unfold nanosPerSecond at hnano
  unfold renderFraction
  split
  case isTrue hzero =>
    subst hzero
    rfl
  case isFalse =>
    split
    case isTrue hmillis =>
      exact readFraction_padded (by decide) (by decide) rfl hmillis (by omega) hstop
    case isFalse =>
      split
      case isTrue hmicros =>
        exact readFraction_padded (by decide) (by decide) rfl hmicros (by omega) hstop
      case isFalse =>
        have hnanos : readFraction ('.' :: padded 9 (nano / 1) ++ 'Z' :: rest) =
            .ok (nano, 'Z' :: rest) :=
          readFraction_padded (by decide) (by decide) rfl (Nat.mod_one nano) (by omega) hstop
        rwa [Nat.div_one] at hnanos

theorem stops_renderFraction (nano : Nat) (rest : List Char) :
    Stops isDigit (renderFraction nano ++ 'Z' :: rest) := by
  unfold renderFraction
  repeat' split
  all_goals exact stops_cons rfl

/-! ### The instant -/

/-- The day of an instant. -/
def date (t : Instant) : Date := Date.ofDayNumber (t.second / secondsPerDay)

/-- What is read from the text of an instant. -/
def reading (t : Instant) : Reading where
  date := t.date
  hour := t.secondOfDay.toNat / 3600
  minute := t.secondOfDay.toNat / 60 % 60
  second := t.secondOfDay.toNat % 60 + t.nano / nanosPerSecond
  nano := t.nano % nanosPerSecond
  offset := 0

theorem secondOfDay_lt (t : Instant) : t.secondOfDay.toNat < 86400 := by
  unfold secondOfDay secondsPerDay
  omega

theorem year_date (t : Instant) : -262143 ≤ t.date.year ∧ t.date.year ≤ 262142 := by
  have hlo := t.first_le
  have hhi := t.le_last
  exact Date.year_ofDayNumber (by unfold secondsPerDay; omega) (by unfold secondsPerDay; omega)

theorem readParts_chars (t : Instant) : readParts t.chars = .ok t.reading := by
  have hchars : t.chars = renderYear t.date.year ++ '-' :: (padded 2 t.date.month ++ '-' ::
      (padded 2 t.date.day ++ 'T' :: (padded 2 t.reading.hour ++ ':' ::
        (padded 2 t.reading.minute ++ ':' :: (padded 2 t.reading.second ++
          (renderFraction t.reading.nano ++ 'Z' :: [])))))) := by
    simp [chars, Date.render, reading, date]
  obtain ⟨hmonth₁, hday₁, _⟩ : t.date.Valid := Date.valid_ofDayNumber _
  have hmonth : t.date.month ≤ 12 := Date.month_ofDayNumber _
  have hday : t.date.day ≤ 31 := Date.day_ofDayNumber _
  have hsod := t.secondOfDay_lt
  have hnano := t.nano_lt
  have hhour : t.reading.hour ≤ 23 := by
    show t.secondOfDay.toNat / 3600 ≤ 23
    omega
  have hminute : t.reading.minute ≤ 59 := by
    show t.secondOfDay.toNat / 60 % 60 ≤ 59
    omega
  have hsecond : t.reading.second ≤ 60 := by
    show t.secondOfDay.toNat % 60 + t.nano / nanosPerSecond ≤ 60
    unfold nanosPerSecond
    omega
  have hfraction : t.reading.nano < nanosPerSecond := Nat.mod_lt _ (by decide)
  have hyear : FitsSigned 32 t.date.year := by
    obtain ⟨hlo, hhi⟩ := t.year_date
    have hlow : 262143 < signLimit 32 := by decide
    exact ⟨by omega, by omega⟩
  rw [hchars]
  unfold readParts
  refine bind_eq_ok.2 ⟨_, readYear_render hyear (stops_cons rfl), ?_⟩
  refine bind_eq_ok.2 ⟨_, readMark_self '-' _ rfl, ?_⟩
  refine bind_eq_ok.2 ⟨_, readField_padded hmonth₁ hmonth (by omega) (stops_cons rfl), ?_⟩
  refine bind_eq_ok.2 ⟨_, readMark_self '-' _ rfl, ?_⟩
  refine bind_eq_ok.2 ⟨_, readField_padded hday₁ hday (by omega) (stops_cons rfl), ?_⟩
  refine bind_eq_ok.2 ⟨((), _), rfl, ?_⟩
  refine bind_eq_ok.2 ⟨_, readField_padded (Nat.zero_le _) hhour (by omega) (stops_cons rfl), ?_⟩
  refine bind_eq_ok.2 ⟨_, readMark_self ':' _ rfl, ?_⟩
  refine bind_eq_ok.2 ⟨_, readField_padded (Nat.zero_le _) hminute (by omega) (stops_cons rfl), ?_⟩
  refine bind_eq_ok.2 ⟨_, readMark_self ':' _ rfl, ?_⟩
  refine bind_eq_ok.2
    ⟨_, readField_padded (Nat.zero_le _) hsecond (by omega) (stops_renderFraction _ _), ?_⟩
  refine bind_eq_ok.2 ⟨_, readFraction_render hfraction, ?_⟩
  rfl

/-- A leap second, if it is in one, ends a minute. -/
def LeapEndsMinute (t : Instant) : Prop := t.isLeap = true → t.second % 60 = 59

instance (t : Instant) : Decidable t.LeapEndsMinute := inferInstanceAs (Decidable (_ → _))

theorem ofParts?_self (t : Instant) : ofParts? t.second t.nano = some t :=
  dif_pos ⟨t.nano_lt, t.first_le, t.le_last⟩

/-- Second 60 stands for the second after which it comes. -/
theorem second_reading {t : Instant} (h : t.LeapEndsMinute) :
    t.reading.second / 60 = t.nano / nanosPerSecond ∧
      t.reading.second - t.reading.second / 60 = t.secondOfDay.toNat % 60 := by
  have hnano := t.nano_lt
  have hsecond : t.reading.second = t.secondOfDay.toNat % 60 + t.nano / nanosPerSecond := rfl
  unfold nanosPerSecond at hsecond ⊢
  by_cases hleap : t.isLeap = true
  · have hend := h hleap
    have hpast : 1000000000 ≤ t.nano := of_decide_eq_true hleap
    unfold secondOfDay secondsPerDay at hsecond ⊢
    omega
  · have hwithin : t.nano < 1000000000 := Nat.not_le.1 fun hle => hleap (decide_eq_true hle)
    omega

theorem ofReading_reading {t : Instant} (h : t.LeapEndsMinute) : ofReading t.reading = .ok t := by
  have hdate : t.reading.date.dayNumber = t.second / secondsPerDay := Date.dayNumber_ofDayNumber _
  obtain ⟨hfirst, hlast⟩ := t.year_date
  have hin : ¬ (¬ t.reading.date.Valid ∨ t.reading.date.year < yearRange.1 ∨
      yearRange.2 < t.reading.date.year) := by
    rintro (hinvalid | hbefore | hafter)
    · exact hinvalid (Date.valid_ofDayNumber _)
    · exact absurd hfirst (Int.not_le.2 hbefore)
    · exact absurd hlast (Int.not_le.2 hafter)
  obtain ⟨hleap, hback⟩ := second_reading h
  have hsecond : t.reading.date.dayNumber * secondsPerDay +
      (((t.reading.hour * 60 + t.reading.minute) * 60 +
        (t.reading.second - t.reading.second / 60) : Nat) : Int) - t.reading.offset = t.second := by
    rw [hdate, hback]
    show t.second / secondsPerDay * secondsPerDay +
      (((t.secondOfDay.toNat / 3600 * 60 + t.secondOfDay.toNat / 60 % 60) * 60 +
        t.secondOfDay.toNat % 60 : Nat) : Int) - 0 = t.second
    unfold secondOfDay secondsPerDay
    omega
  have hnano : t.reading.second / 60 * nanosPerSecond + t.reading.nano = t.nano := by
    rw [hleap]
    exact Nat.div_add_mod' t.nano nanosPerSecond
  have hoffset : ¬ secondsPerDay ≤ (t.reading.offset.natAbs : Int) :=
    show ¬ secondsPerDay ≤ ((0 : Int).natAbs : Int) by decide
  unfold ofReading
  rw [if_neg hin, if_neg hoffset]
  simp only [hsecond, hnano, ofParts?_self]

/-- The instant of the text of an instant. -/
theorem read_chars {t : Instant} (h : t.LeapEndsMinute) : read t.chars = .ok t :=
  bind_eq_ok.2 ⟨_, t.readParts_chars, ofReading_reading h⟩

/-! ### The characters of the text -/

/-- The characters that instants are written with. -/
def isTimeChar (c : Char) : Bool := isDigit c || "+-.:TZ".toList.contains c

@[simp] theorem all_isTimeChar_padded (w n : Nat) : (padded w n).all isTimeChar = true := by
  rw [List.all_eq_true]
  intro c hc
  exact Bool.or_eq_true_iff.2 (.inl (isDigit_of_mem_padded hc))

@[simp] theorem all_isTimeChar_decimal (n : Nat) : (decimal n).all isTimeChar = true := by
  rw [List.all_eq_true]
  intro c hc
  exact Bool.or_eq_true_iff.2 (.inl (isDigit_of_mem_decimal hc))

@[simp] theorem all_isTimeChar_renderYear (year : Int) :
    (renderYear year).all isTimeChar = true := by
  have hsign : isTimeChar (if year < 0 then '-' else '+') = true := by split <;> rfl
  unfold renderYear
  split
  · exact all_isTimeChar_padded _ _
  · rw [List.all_cons, hsign]
    split
    · exact all_isTimeChar_padded _ _
    · exact all_isTimeChar_decimal _

@[simp] theorem all_isTimeChar_renderFraction (nano : Nat) :
    (renderFraction nano).all isTimeChar = true := by
  have hpoint : isTimeChar '.' = true := rfl
  unfold renderFraction
  repeat' split
  all_goals simp [hpoint, -List.all_eq_true]

theorem all_isTimeChar_chars (t : Instant) : t.chars.all isTimeChar = true := by
  have hmarks : isTimeChar '-' = true ∧ isTimeChar 'T' = true ∧ isTimeChar ':' = true ∧
      isTimeChar 'Z' = true := by decide
  simp [chars, Date.render, hmarks, -List.all_eq_true]

theorem notMem_chars {c : Char} (hc : isTimeChar c = false) (t : Instant) : c ∉ t.chars := by
  intro h
  rw [List.all_eq_true.1 t.all_isTimeChar_chars c h] at hc
  cases hc

/-! ### What texts name -/

theorem readNumber_ok {width n : Nat} {s rest : List Char} (h : readNumber width s = .ok (n, rest)) :
    s.length - rest.length ≤ width ∧ n < 10 ^ (s.length - rest.length) := by
  have hlen : ((s.take width).takeWhile isDigit).length ≤ min width s.length :=
    Nat.le_trans (List.takeWhile_prefix _).length_le (Nat.le_of_eq List.length_take)
  unfold readNumber at h
  dsimp only at h
  split at h
  · cases h
  · cases h
  · split at h
    · cases h
      rw [List.length_drop, Nat.sub_sub_self (by omega)]
      exact ⟨by omega, value_lt _⟩
    · cases h

theorem readField_ok {lo hi n : Nat} {s rest : List Char}
    (h : readField lo hi s = .ok (n, rest)) : n ≤ hi := by
  obtain ⟨⟨m, r⟩, _, h⟩ := bind_eq_ok.1 h
  dsimp only at h
  split at h
  case isTrue hin =>
    cases h
    exact hin.2
  case isFalse => cases h

theorem readFraction_ok {n : Nat} {s rest : List Char} (h : readFraction s = .ok (n, rest)) :
    n < nanosPerSecond := by
  unfold readFraction at h
  split at h
  case h_1 s =>
    obtain ⟨⟨m, r⟩, hm, h⟩ := bind_eq_ok.1 h
    cases h
    obtain ⟨hwide, hlt⟩ := readNumber_ok hm
    calc m * 10 ^ (9 - (s.length - r.length))
        < 10 ^ (s.length - r.length) * 10 ^ (9 - (s.length - r.length)) :=
          Nat.mul_lt_mul_of_pos_right hlt (Nat.pow_pos (by decide))
      _ = nanosPerSecond := by
          rw [← Nat.pow_add, Nat.add_sub_cancel' hwide]
          rfl
  case h_2 =>
    cases h
    decide

theorem readOffset_ok {n : Int} {s rest : List Char} (h : readOffset s = .ok (n, rest)) :
    n % 60 = 0 := by
  unfold readOffset at h
  split at h
  · cases h
    rfl
  · split at h
    · cases h
    · split at h
      · cases h
        rfl
      · split at h
        · obtain ⟨⟨⟨h₁, h₀⟩, r⟩, _, h⟩ := bind_eq_ok.1 h
          obtain ⟨⟨⟨m₁, m₀⟩, r'⟩, _, h⟩ := bind_eq_ok.1 h
          dsimp only at h
          split at h
          · cases h
          · cases h
            split <;> omega
        · cases h

/-- A text that is read names second 60 at most, less than a second more, and an offset of whole
minutes. -/
theorem readParts_ok {s : List Char} {r : Reading} (h : readParts s = .ok r) :
    r.second ≤ 60 ∧ r.nano < nanosPerSecond ∧ r.offset % 60 = 0 := by
  unfold readParts at h
  obtain ⟨⟨year, s⟩, _, h⟩ := bind_eq_ok.1 h
  obtain ⟨⟨_, s⟩, _, h⟩ := bind_eq_ok.1 h
  obtain ⟨⟨month, s⟩, _, h⟩ := bind_eq_ok.1 h
  obtain ⟨⟨_, s⟩, _, h⟩ := bind_eq_ok.1 h
  obtain ⟨⟨day, s⟩, _, h⟩ := bind_eq_ok.1 h
  obtain ⟨⟨_, s⟩, _, h⟩ := bind_eq_ok.1 h
  obtain ⟨⟨hour, s⟩, _, h⟩ := bind_eq_ok.1 h
  obtain ⟨⟨_, s⟩, _, h⟩ := bind_eq_ok.1 h
  obtain ⟨⟨minute, s⟩, _, h⟩ := bind_eq_ok.1 h
  obtain ⟨⟨_, s⟩, _, h⟩ := bind_eq_ok.1 h
  obtain ⟨⟨second, s⟩, hsecond, h⟩ := bind_eq_ok.1 h
  obtain ⟨⟨nano, s⟩, hnano, h⟩ := bind_eq_ok.1 h
  obtain ⟨⟨offset, s⟩, hoffset, h⟩ := bind_eq_ok.1 h
  dsimp only at h
  split at h
  case isTrue =>
    cases h
    exact ⟨readField_ok hsecond, readFraction_ok hnano, readOffset_ok hoffset⟩
  case isFalse => cases h

theorem ofReading_ok {r : Reading} {t : Instant} (hsecond : r.second ≤ 60)
    (hnano : r.nano < nanosPerSecond) (hoffset : r.offset % 60 = 0) (h : ofReading r = .ok t) :
    t.LeapEndsMinute := by
  unfold ofReading at h
  split at h
  · cases h
  split at h
  · cases h
  dsimp only at h
  split at h
  case h_2 => cases h
  case h_1 t' hparts =>
    cases h
    unfold ofParts? at hparts
    split at hparts
    case isFalse => cases hparts
    case isTrue =>
      cases hparts
      intro hleap
      have hpast : nanosPerSecond ≤ r.second / 60 * nanosPerSecond + r.nano :=
        of_decide_eq_true hleap
      show (r.date.dayNumber * secondsPerDay + (((r.hour * 60 + r.minute) * 60 +
        (r.second - r.second / 60) : Nat) : Int) - r.offset) % 60 = 59
      have hsixty : r.second = 60 := by
        unfold nanosPerSecond at hnano hpast
        omega
      unfold secondsPerDay
      omega

/-- There is a text that is read as the instant. -/
def Readable (t : Instant) : Prop := ∃ s, read s = .ok t

/-- The instants that there are texts for. -/
theorem readable_iff {t : Instant} : t.Readable ↔ t.LeapEndsMinute := by
  constructor
  · rintro ⟨s, h⟩
    obtain ⟨r, hparts, h⟩ := bind_eq_ok.1 h
    obtain ⟨hsecond, hnano, hoffset⟩ := readParts_ok hparts
    exact ofReading_ok hsecond hnano hoffset h
  · intro h
    exact ⟨t.chars, read_chars h⟩

end Instant

/-- A moment that was told can be told by a text. -/
def Stamp.Readable : Stamp → Prop
  | .told t => t.Readable
  | .clock => True

end PinLedger
