import PinLedger.Time.Instant

/-!
# PinLedger.Proofs.Time.Nanos

Instants as numbers. Outside of leap seconds an instant is the number of its nanoseconds from 1970:
order, distance and moving by a length of time are those of integers.

* `le_iff_nanos`, `lt_iff_nanos`, `eq_iff_nanos` — the order
* `since_eq`, `distance_eq` — the length of time between two instants
* `nanos_of_add?`, `nanos_of_sub?` — an instant moved by a length of time
* `lt_of_add?`, `lt_of_sub?` — it is later, or earlier
* `exists_add?`, `exists_sub?` — it can be moved to every moment of the calendar
-/

namespace PinLedger
namespace Instant

/-- Nanoseconds from 1970. A leap second covers the second after it. -/
def nanos (t : Instant) : Int := t.second * nanosPerSecond + t.nano

theorem nanosPerSecond_eq : (nanosPerSecond : Int) = 1000000000 := rfl

theorem isLeap_eq_false_iff {t : Instant} : t.isLeap = false ↔ t.nano < 1000000000 :=
  decide_eq_false_iff_not.trans Nat.not_le

theorem nanos_eq (t : Instant) : t.nanos = t.second * 1000000000 + t.nano := rfl

section LeapFree

variable {a b t u : Instant}

theorem le_iff_nanos (ha : a.isLeap = false) (hb : b.isLeap = false) :
    a ≤ b ↔ a.nanos ≤ b.nanos := by
  have := isLeap_eq_false_iff.1 ha
  have := isLeap_eq_false_iff.1 hb
  rw [le_def, nanos_eq, nanos_eq]
  omega

theorem lt_iff_nanos (ha : a.isLeap = false) (hb : b.isLeap = false) :
    a < b ↔ a.nanos < b.nanos := by
  rw [← Instant.not_le, le_iff_nanos hb ha, Int.not_le]

theorem eq_iff_nanos (ha : a.isLeap = false) (hb : b.isLeap = false) :
    a = b ↔ a.nanos = b.nanos := by
  constructor
  · intro h; rw [h]
  · intro h
    exact Instant.le_antisymm ((le_iff_nanos ha hb).2 (Int.le_of_eq h))
      ((le_iff_nanos hb ha).2 (Int.le_of_eq h.symm))

theorem leapAdjustment_eq_zero (ha : a.isLeap = false) (hb : b.isLeap = false) :
    leapAdjustment a b = 0 := by
  simp [leapAdjustment, ha, hb]

theorem since_eq (ha : a.isLeap = false) (hb : b.isLeap = false) :
    a.since b = a.nanos - b.nanos := by
  rw [since, leapAdjustment_eq_zero ha hb, nanos_eq, nanos_eq, nanosPerSecond]
  omega

theorem distance_eq (ha : a.isLeap = false) (hb : b.isLeap = false) :
    a.distance b = (a.nanos - b.nanos).natAbs := by
  rw [distance, since_eq ha hb]

theorem nanos_of_ofParts? {second : Int} {nano : Nat} (hn : nano < 1000000000)
    (h : ofParts? second nano = some u) :
    u.isLeap = false ∧ u.nanos = second * 1000000000 + nano := by
  unfold ofParts? at h
  split at h
  · cases h
    exact ⟨isLeap_eq_false_iff.2 hn, rfl⟩
  · cases h

/-- A part of a second that is less than a second off its range is carried over. -/
theorem nanos_of_normalized? {second nano : Int} (hl : -1000000000 < nano)
    (hu : nano < 2000000000) (h : normalized? second nano = some u) :
    u.isLeap = false ∧ u.nanos = second * 1000000000 + nano := by
  have hn := nanosPerSecond_eq
  simp only [normalized?] at h
  by_cases hneg : nano < 0
  · rw [if_pos hneg] at h
    obtain ⟨hleap, hnanos⟩ := nanos_of_ofParts? (by omega) h
    exact ⟨hleap, by omega⟩
  · rw [if_neg hneg] at h
    by_cases hbig : (nanosPerSecond : Int) ≤ nano
    · rw [if_pos hbig] at h
      obtain ⟨hleap, hnanos⟩ := nanos_of_ofParts? (by omega) h
      exact ⟨hleap, by omega⟩
    · rw [if_neg hbig] at h
      obtain ⟨hleap, hnanos⟩ := nanos_of_ofParts? (by omega) h
      exact ⟨hleap, by omega⟩

theorem nanos_of_add? {d : Int} (ht : t.isLeap = false) (h : t.add? d = some u) :
    u.isLeap = false ∧ u.nanos = t.nanos + d := by
  have hn := isLeap_eq_false_iff.1 ht
  simp only [add?, ht, Bool.false_eq_true, if_false] at h
  -- whole seconds and the rest of `d`, which has the sign of `d`
  have hd := Int.mul_tdiv_add_tmod d nanosPerSecond
  have hlt := Int.tmod_lt_of_pos d (b := nanosPerSecond) (by decide)
  have hgt := Int.lt_tmod_of_pos d (b := nanosPerSecond) (by decide)
  rw [nanosPerSecond_eq] at hd hlt hgt h
  obtain ⟨hleap, hnanos⟩ := nanos_of_normalized? (by omega) (by omega) h
  refine ⟨hleap, ?_⟩
  rw [hnanos, nanos_eq]
  omega

theorem nanos_of_sub? {d : Int} (ht : t.isLeap = false) (h : t.sub? d = some u) :
    u.isLeap = false ∧ u.nanos = t.nanos - d := by
  obtain ⟨hleap, hnanos⟩ := nanos_of_add? ht h
  exact ⟨hleap, by omega⟩

theorem lt_of_sub? {d : Int} (hd : 0 < d) (ht : t.isLeap = false) (h : t.sub? d = some u) :
    u < t := by
  obtain ⟨hu, hnanos⟩ := nanos_of_sub? ht h
  rw [lt_iff_nanos hu ht]
  omega

theorem lt_of_add? {d : Int} (hd : 0 < d) (ht : t.isLeap = false) (h : t.add? d = some u) :
    t < u := by
  obtain ⟨hu, hnanos⟩ := nanos_of_add? ht h
  rw [lt_iff_nanos ht hu]
  omega

/-- The number of an instant lies between those of the first and the last moment of the calendar. -/
theorem nanos_bounds (ht : t.isLeap = false) :
    firstSecond * 1000000000 ≤ t.nanos ∧ t.nanos < (lastSecond + 1) * 1000000000 := by
  have hn := isLeap_eq_false_iff.1 ht
  have hfirst := t.first_le
  have hlast := t.le_last
  rw [nanos_eq, firstSecond, lastSecond]
  omega

theorem exists_ofParts? {second : Int} {nano : Nat} (hn : nano < 1000000000)
    (hfirst : firstSecond ≤ second) (hlast : second ≤ lastSecond) :
    ∃ u, ofParts? second nano = some u :=
  ⟨_, dif_pos ⟨Nat.lt_trans hn (by decide), hfirst, hlast⟩⟩

theorem exists_normalized? {second nano : Int} (hl : -1000000000 < nano) (hu : nano < 2000000000)
    (hfirst : firstSecond * 1000000000 ≤ second * 1000000000 + nano)
    (hlast : second * 1000000000 + nano < (lastSecond + 1) * 1000000000) :
    ∃ u, normalized? second nano = some u := by
  have hn := nanosPerSecond_eq
  simp only [normalized?]
  by_cases hneg : nano < 0
  · rw [if_pos hneg]
    exact exists_ofParts? (by omega) (by omega) (by omega)
  · rw [if_neg hneg]
    by_cases hbig : (nanosPerSecond : Int) ≤ nano
    · rw [if_pos hbig]
      exact exists_ofParts? (by omega) (by omega) (by omega)
    · rw [if_neg hbig]
      exact exists_ofParts? (by omega) (by omega) (by omega)

theorem exists_add? {d : Int} (ht : t.isLeap = false)
    (hfirst : firstSecond * 1000000000 ≤ t.nanos + d)
    (hlast : t.nanos + d < (lastSecond + 1) * 1000000000) : ∃ u, t.add? d = some u := by
  have hn := isLeap_eq_false_iff.1 ht
  simp only [add?, ht, Bool.false_eq_true, if_false]
  have hd := Int.mul_tdiv_add_tmod d nanosPerSecond
  have hlt := Int.tmod_lt_of_pos d (b := nanosPerSecond) (by decide)
  have hgt := Int.lt_tmod_of_pos d (b := nanosPerSecond) (by decide)
  rw [nanosPerSecond_eq] at hd hlt hgt ⊢
  rw [nanos_eq] at hfirst hlast
  exact exists_normalized? (by omega) (by omega) (by omega) (by omega)

theorem exists_sub? {d : Int} (ht : t.isLeap = false)
    (hfirst : firstSecond * 1000000000 ≤ t.nanos - d)
    (hlast : t.nanos - d < (lastSecond + 1) * 1000000000) : ∃ u, t.sub? d = some u :=
  exists_add? ht (by omega) (by omega)

end LeapFree

end Instant
end PinLedger
