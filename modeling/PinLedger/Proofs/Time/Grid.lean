import PinLedger.Proofs.Time.Nanos
import PinLedger.Reconcile.EdgeDelta

/-!
# PinLedger.Proofs.Time.Grid

Times of data. Row times lie outside of leap seconds, and distinct ones are at least a tick apart,
so that a range which ends a tick before a row time holds all row times before it.

* `Grid` — a set of such times
* `Grid.mem_before`, `Grid.mem_after` — the ranges up to a tick before a time and from a tick after
  it
* `Ticks`, `Grid.ticks` — the tick between two times does not leave the calendar
-/

namespace PinLedger

/-- Times outside of leap seconds, distinct ones at least a tick apart. -/
structure Grid (P : Instant → Prop) : Prop where
  leapFree : ∀ a, P a → a.isLeap = false
  apart : ∀ a b, P a → P b → a = b ∨ tick ≤ a.distance b

/-- From a time to another one of them there is room for a tick. -/
structure Ticks (P : Instant → Prop) : Prop where
  back : ∀ a b, P a → P b → a < b → ∃ c, b.sub? tick = some c
  forth : ∀ a b, P a → P b → b < a → ∃ c, b.add? tick = some c

theorem grid_of_list {l : List Instant} (hleap : ∀ a ∈ l, a.isLeap = false)
    (hapart : ∀ a ∈ l, ∀ b ∈ l, a = b ∨ tick ≤ a.distance b) : Grid (· ∈ l) :=
  ⟨hleap, fun a b ha hb => hapart a ha b hb⟩

namespace TimeRange

theorem mem_between {a b x : Instant} : x ∈ between a b ↔ a ≤ x ∧ x ≤ b ∨ b ≤ x ∧ x ≤ a := by
  unfold between
  split
  · rename_i h
    constructor
    · exact Or.inl
    · rintro (hx | hx)
      · exact hx
      · exact ⟨Instant.le_trans h hx.1, Instant.le_trans hx.2 h⟩
  · rename_i h
    constructor
    · exact Or.inr
    · rintro (hx | hx)
      · exact absurd (Instant.le_trans hx.1 hx.2) h
      · exact hx

end TimeRange

namespace Grid

variable {P : Instant → Prop} {a b c x : Instant}

theorem tick_eq : tick = 1000 := rfl

theorem le_iff (hP : Grid P) (ha : P a) (hb : P b) : a ≤ b ↔ a.nanos ≤ b.nanos :=
  Instant.le_iff_nanos (hP.leapFree a ha) (hP.leapFree b hb)

theorem lt_iff (hP : Grid P) (ha : P a) (hb : P b) : a < b ↔ a.nanos < b.nanos :=
  Instant.lt_iff_nanos (hP.leapFree a ha) (hP.leapFree b hb)

/-- A time after another is at least a tick after it. -/
theorem tick_le (hP : Grid P) (ha : P a) (hb : P b) (h : a.nanos < b.nanos) :
    a.nanos + 1000 ≤ b.nanos := by
  rcases hP.apart a b ha hb with rfl | hd
  · exact absurd h (Int.lt_irrefl _)
  · rw [Instant.distance_eq (hP.leapFree a ha) (hP.leapFree b hb), tick_eq] at hd
    omega

/-- The times from `a` up to a tick before `b` are those before `b`. -/
theorem mem_before (hP : Grid P) (ha : P a) (hb : P b) (hx : P x) (hab : a < b)
    (h : b.sub? tick = some c) : x ∈ TimeRange.between a c ↔ a ≤ x ∧ x < b := by
  obtain ⟨hc, hnanos⟩ := Instant.nanos_of_sub? (hP.leapFree b hb) h
  rw [tick_eq] at hnanos
  rw [hP.lt_iff ha hb] at hab
  have hgap := hP.tick_le ha hb hab
  have hxb : x.nanos < b.nanos → x.nanos + 1000 ≤ b.nanos := hP.tick_le hx hb
  have hax : x.nanos < a.nanos → x.nanos + 1000 ≤ a.nanos := hP.tick_le hx ha
  rw [TimeRange.mem_between, hP.le_iff ha hx, hP.le_iff hx ha, hP.lt_iff hx hb,
    Instant.le_iff_nanos (hP.leapFree x hx) hc, Instant.le_iff_nanos hc (hP.leapFree x hx)]
  omega

/-- The times from a tick after `b` up to `a` are those after `b`. -/
theorem mem_after (hP : Grid P) (ha : P a) (hb : P b) (hx : P x) (hba : b < a)
    (h : b.add? tick = some c) : x ∈ TimeRange.between c a ↔ b < x ∧ x ≤ a := by
  obtain ⟨hc, hnanos⟩ := Instant.nanos_of_add? (hP.leapFree b hb) h
  rw [tick_eq] at hnanos
  rw [hP.lt_iff hb ha] at hba
  have hgap := hP.tick_le hb ha hba
  have hbx : b.nanos < x.nanos → b.nanos + 1000 ≤ x.nanos := hP.tick_le hb hx
  have hax : a.nanos < x.nanos → a.nanos + 1000 ≤ x.nanos := hP.tick_le ha hx
  rw [TimeRange.mem_between, hP.le_iff ha hx, hP.le_iff hx ha, hP.lt_iff hb hx,
    Instant.le_iff_nanos (hP.leapFree x hx) hc, Instant.le_iff_nanos hc (hP.leapFree x hx)]
  omega

/-- Where one time is before another, the latter can go back by a tick. -/
theorem exists_before (hP : Grid P) (ha : P a) (hb : P b) (hab : a < b) :
    ∃ c, b.sub? tick = some c := by
  rw [hP.lt_iff ha hb] at hab
  have hgap := hP.tick_le ha hb hab
  have hfirst := (Instant.nanos_bounds (hP.leapFree a ha)).1
  have hlast := (Instant.nanos_bounds (hP.leapFree b hb)).2
  refine Instant.exists_sub? (hP.leapFree b hb) ?_ ?_
  · rw [tick_eq]
    omega
  · rw [tick_eq]
    omega

theorem exists_after (hP : Grid P) (ha : P a) (hb : P b) (hba : b < a) :
    ∃ c, b.add? tick = some c := by
  rw [hP.lt_iff hb ha] at hba
  have hgap := hP.tick_le hb ha hba
  have hfirst := (Instant.nanos_bounds (hP.leapFree b hb)).1
  have hlast := (Instant.nanos_bounds (hP.leapFree a ha)).2
  refine Instant.exists_add? (hP.leapFree b hb) ?_ ?_
  · rw [tick_eq]
    omega
  · rw [tick_eq]
    omega

theorem ticks (hP : Grid P) : Ticks P :=
  ⟨fun _ _ => hP.exists_before, fun _ _ => hP.exists_after⟩

end Grid
end PinLedger
