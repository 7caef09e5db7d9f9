import Mathlib.Algebra.GroupWithZero.Nat
import PinLedger.Time.Calendar

/-!
# PinLedger.Proofs.Time.Calendar

The calendar. The date of a day number exists, and it has that day number.

* `daysBeforeYear_yearOfDay` — a day lies in the year that is found for it
* `monthOfDay_spec` — and in the month
* `valid_ofDayNumber`, `dayNumber_ofDayNumber` — dates and day numbers
-/

namespace PinLedger

theorem daysBeforeYear_succ (year : Int) :
    Date.daysBeforeYear (year + 1) =
      Date.daysBeforeYear year + if isLeapYear year then 366 else 365 := by
  unfold Date.daysBeforeYear
  by_cases h : isLeapYear year = true
  · rw [if_pos h]
    simp only [isLeapYear, Bool.and_eq_true, Bool.or_eq_true, beq_iff_eq, bne_iff_ne] at h
    omega
  · rw [if_neg h]
    simp only [isLeapYear, Bool.and_eq_true, Bool.or_eq_true, beq_iff_eq, bne_iff_ne] at h
    omega

/-- A day lies in the year that is found for it. -/
theorem daysBeforeYear_yearOfDay (n : Int) :
    Date.daysBeforeYear (Date.yearOfDay n) ≤ n ∧
      n < Date.daysBeforeYear (Date.yearOfDay n + 1) := by
  unfold Date.yearOfDay
  simp only
  split
  case isTrue hbefore =>
    rw [Int.sub_add_cancel]
    refine ⟨?_, hbefore⟩
    unfold Date.daysBeforeYear
    omega
  case isFalse hbefore =>
    split
    case isTrue hafter =>
      refine ⟨hafter, ?_⟩
      unfold Date.daysBeforeYear
      omega
    case isFalse hafter => exact ⟨Int.not_lt.1 hbefore, Int.not_le.1 hafter⟩

theorem sum_monthLengths (leap : Bool) : (monthLengths leap).sum = if leap then 366 else 365 := by
  cases leap <;> rfl

/-- The days of the months before, and the day in its month, make up the day in the year. -/
theorem monthOfDay_spec {lens : List Nat} {n : Nat} (h : n < lens.sum) :
    (Date.monthOfDay lens n).2 < lens.getD (Date.monthOfDay lens n).1 0 ∧
      (lens.take (Date.monthOfDay lens n).1).foldl (· + ·) 0 + (Date.monthOfDay lens n).2 = n := by
  fun_induction Date.monthOfDay lens n with
  | case1 n => cases h
  | case2 len rest n hlt => exact ⟨hlt, Nat.zero_add n⟩
  | case3 len rest n hge ih =>
    rw [List.sum_cons] at h
    obtain ⟨hday, hsum⟩ := ih (by omega)
    refine ⟨hday, ?_⟩
    rw [List.take_succ_cons, ← List.sum_eq_foldl_nat, List.sum_cons]
    rw [← List.sum_eq_foldl_nat] at hsum
    omega

namespace Date

/-- The day in its year, and the year's length. -/
theorem dayOfYear_lt (n : Int) :
    (n - daysBeforeYear (yearOfDay n)).toNat <
      (monthLengths (isLeapYear (yearOfDay n))).sum := by
  obtain ⟨hle, hlt⟩ := daysBeforeYear_yearOfDay n
  rw [daysBeforeYear_succ] at hlt
  rw [sum_monthLengths]
  cases hleap : isLeapYear (yearOfDay n)
  · simp only [hleap, Bool.false_eq_true, if_false] at hlt ⊢
    omega
  · simp only [hleap, if_true] at hlt ⊢
    omega

theorem valid_ofDayNumber (n : Int) : (ofDayNumber n).Valid := by
  obtain ⟨hday, _⟩ := monthOfDay_spec (dayOfYear_lt (n + epochDay))
  exact ⟨Nat.le_add_left 1 _, Nat.le_add_left 1 _, hday⟩

/-- The date of a day number has that day number. -/
theorem dayNumber_ofDayNumber (n : Int) : (ofDayNumber n).dayNumber = n := by
  obtain ⟨_, hsum⟩ := monthOfDay_spec (dayOfYear_lt (n + epochDay))
  obtain ⟨hle, _⟩ := daysBeforeYear_yearOfDay (n + epochDay)
  unfold dayNumber ofDayNumber
  simp only [Nat.add_sub_cancel]
  omega

theorem lt_length_of_lt_getD {lens : List Nat} {i d : Nat} (h : d < lens.getD i 0) :
    i < lens.length := by
  refine Nat.lt_of_not_le fun hle => ?_
  rw [List.getD_eq_getElem?_getD, List.getElem?_eq_none hle] at h
  exact Nat.not_lt_zero d h

theorem month_ofDayNumber (n : Int) : (ofDayNumber n).month ≤ 12 := by
  obtain ⟨hday, _⟩ := monthOfDay_spec (dayOfYear_lt (n + epochDay))
  exact lt_length_of_lt_getD hday

theorem day_ofDayNumber (n : Int) : (ofDayNumber n).day ≤ 31 := by
  obtain ⟨_, _, hday⟩ := valid_ofDayNumber n
  refine Nat.le_trans hday ?_
  have hlens : ∀ leap, ∀ len ∈ monthLengths leap, len ≤ 31 := by decide
  rw [List.getD_eq_getElem?_getD]
  cases h : (monthLengths (isLeapYear (ofDayNumber n).year))[(ofDayNumber n).month - 1]? with
  | none => decide
  | some len => exact hlens _ len (List.mem_of_getElem? h)

theorem daysBeforeYear_mono {a b : Int} (h : a ≤ b) : daysBeforeYear a ≤ daysBeforeYear b := by
  unfold daysBeforeYear
  omega

/-- The days of the calendar lie in its years. -/
theorem year_ofDayNumber {n : Int} (hlo : -96465292 ≤ n) (hhi : n ≤ 95026236) :
    -262143 ≤ (ofDayNumber n).year ∧ (ofDayNumber n).year ≤ 262142 := by
  obtain ⟨hle, hlt⟩ := daysBeforeYear_yearOfDay (n + epochDay)
  show -262143 ≤ yearOfDay (n + epochDay) ∧ yearOfDay (n + epochDay) ≤ 262142
  have hepoch : epochDay = 719528 := rfl
  have hfirst : daysBeforeYear (-262143) = -95745764 := rfl
  have hlast : daysBeforeYear 262143 = 95745765 := rfl
  constructor
  · refine Int.not_lt.1 fun h => ?_
    have hmono := daysBeforeYear_mono (show yearOfDay (n + epochDay) + 1 ≤ -262143 by omega)
    omega
  · refine Int.not_lt.1 fun h => ?_
    have hmono := daysBeforeYear_mono (show 262143 ≤ yearOfDay (n + epochDay) by omega)
    omega

end Date

end PinLedger
