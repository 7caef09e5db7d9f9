import PinLedger.Proofs.Store.Hulls
import PinLedger.View

/-!
# PinLedger.Proofs.Window

What the hull of two times holds. The two times are put in order by their whole seconds, and times
of one second stay in the order in which they come. So the hull holds all that the times cover,
unless the later one of two times of one second comes first; then it misses less than a second.

* `orderedPair_sorted` — when two times come out in order
* `Window.hull?_eq` — the hull, from the ranges that its times cover
* `exists_hull_holding` — the hull of two times holds both of them
* `TimeRange.Nears` — in a range, or less than a second outside of it
* `hull_covers_windows` — what the hull of two times holds
* `hull_misses` — two times of one second, the later one first; a row inside of a leap second
-/

namespace PinLedger

variable {w : Window} {a b x p q : Instant} {ra rb raw : TimeRange}

/-- Two times come out in order if they are not of one second, or if they came in order. -/
theorem orderedPair_sorted (a b : Instant) :
    (orderedPair a b).1 ≤ (orderedPair a b).2 ↔ a.second ≠ b.second ∨ a ≤ b := by
  unfold orderedPair
  by_cases hab : a.second ≤ b.second
  · rw [if_pos hab]
    show a ≤ b ↔ _
    rw [Instant.le_def]
    omega
  · rw [if_neg hab]
    show b ≤ a ↔ _
    rw [Instant.le_def]
    omega

theorem orderedPair_cases (a b : Instant) :
    orderedPair a b = (a, b) ∨ orderedPair a b = (b, a) := by
  unfold orderedPair
  split
  · exact .inl rfl
  · exact .inr rfl

namespace TimeRange

/-- Outside of leap seconds the bounds of a range are integers, in either order. -/
theorem mem_between_iff_nanos (hp : p.isLeap = false) (hq : q.isLeap = false)
    (hx : x.isLeap = false) :
    x ∈ between p q ↔
      p.nanos ≤ x.nanos ∧ x.nanos ≤ q.nanos ∨ q.nanos ≤ x.nanos ∧ x.nanos ≤ p.nanos := by
  rw [mem_between, Instant.le_iff_nanos hp hx, Instant.le_iff_nanos hx hq,
    Instant.le_iff_nanos hq hx, Instant.le_iff_nanos hx hp]

theorem between_comm (p q : Instant) : between p q = between q p := by
  unfold between
  by_cases hpq : p ≤ q
  · by_cases hqp : q ≤ p
    · cases Instant.le_antisymm hpq hqp
      rfl
    · rw [dif_pos hpq, dif_neg hqp]
  · have hqp : q ≤ p := (Instant.le_total p q).resolve_left hpq
    rw [dif_neg hpq, dif_pos hqp]

/-- In the range, or less than a second outside of it. -/
def Nears (r : TimeRange) (x : Instant) : Prop :=
  x ∈ r ∨ (x < r.start ∧ r.start.since x < nanosPerSecond) ∨
    (r.stop < x ∧ x.since r.stop < nanosPerSecond)

/-- What begins less than a second after `x` and ends less than a second before it is near. -/
theorem nears_between (hp : p.isLeap = false) (hq : q.isLeap = false) (hx : x.isLeap = false)
    (hstart : p.nanos < x.nanos + 1000000000) (hstop : x.nanos < q.nanos + 1000000000) :
    (between p q).Nears x := by
  unfold Nears between
  split
  · rw [mem_def, Instant.le_iff_nanos hp hx, Instant.le_iff_nanos hx hq,
      Instant.lt_iff_nanos hx hp, Instant.lt_iff_nanos hq hx, Instant.since_eq hp hx,
      Instant.since_eq hx hq, Instant.nanosPerSecond_eq]
    omega
  · -- the bounds are swapped, and so the range begins before `p` and ends after `q`
    rename_i hpq
    rw [Instant.le_iff_nanos hp hq] at hpq
    rw [mem_def, Instant.le_iff_nanos hq hx, Instant.le_iff_nanos hx hp,
      Instant.lt_iff_nanos hx hq, Instant.lt_iff_nanos hp hx, Instant.since_eq hq hx,
      Instant.since_eq hx hp, Instant.nanosPerSecond_eq]
    omega

end TimeRange

namespace Window

/-- The hull reaches from the front of what one time covers to the back of what the other covers. -/
theorem hull?_eq (ha : w.Covers a ra) (hb : w.Covers b rb) :
    w.hull? a b = some (if a.second ≤ b.second then .between ra.start rb.stop
      else .between rb.start ra.stop) := by
  unfold hull? orderedPair
  by_cases hab : a.second ≤ b.second
  · simp only [hab, if_true, ha.back, hb.forth]
    rfl
  · simp only [hab, if_false, hb.back, ha.forth]
    rfl

namespace Covers

/-- From the front of what the earlier time covers to the back of what the later time covers. -/
theorem mem_between_of_le (ha : w.Covers a ra) (hb : w.Covers b rb) (hab : a ≤ b)
    (hx : x ∈ ra ∨ x ∈ rb) : x ∈ TimeRange.between ra.start rb.stop := by
  obtain ⟨hstartA, hstartA'⟩ := ha.start
  obtain ⟨hstopA, hstopA'⟩ := ha.stop
  obtain ⟨hstartB, hstartB'⟩ := hb.start
  obtain ⟨hstopB, hstopB'⟩ := hb.stop
  rw [Instant.le_iff_nanos ha.leapFree hb.leapFree] at hab
  have hstart : ra.start ≤ rb.start := (Instant.le_iff_nanos hstartA hstartB).2 (by omega)
  have hstop : ra.stop ≤ rb.stop := (Instant.le_iff_nanos hstopA hstopB).2 (by omega)
  refine TimeRange.mem_between.2 (.inl ?_)
  rcases hx with hx | hx
  · exact ⟨hx.1, Instant.le_trans hx.2 hstop⟩
  · exact ⟨Instant.le_trans hstart hx.1, hx.2⟩

/-- A time that covers nothing but itself. -/
theorem stop_eq_start (ha : w.Covers a ra) (hw : w.halfWidth = 0) : ra.stop = ra.start := by
  obtain ⟨hstart, hstart'⟩ := ha.start
  obtain ⟨hstop, hstop'⟩ := ha.stop
  rw [Instant.eq_iff_nanos hstop hstart]
  omega

/-- The front of what the earlier time covers lies before the hull that begins with the later time.
-/
theorem start_not_mem (ha : w.Covers a ra) (hb : w.Covers b rb) (hba : b < a)
    (hw : w.halfWidth ≠ 0) : rb.start ∉ TimeRange.between ra.start rb.stop := by
  obtain ⟨hstartA, hstartA'⟩ := ha.start
  obtain ⟨hstartB, hstartB'⟩ := hb.start
  obtain ⟨hstopB, hstopB'⟩ := hb.stop
  rw [Instant.lt_iff_nanos hb.leapFree ha.leapFree] at hba
  rw [TimeRange.mem_between_iff_nanos hstartA hstopB hstartB]
  omega

/-- If nothing beside the times is covered, it does not matter which one comes first. -/
theorem between_swap (ha : w.Covers a ra) (hb : w.Covers b rb) (hw : w.halfWidth = 0) :
    TimeRange.between ra.start rb.stop = TimeRange.between rb.start ra.stop := by
  rw [ha.stop_eq_start hw, hb.stop_eq_start hw, TimeRange.between_comm]

end Covers

/-- The hull holds all that the times cover if and only if they come out in order, or cover nothing
but themselves. -/
theorem hull_holds_iff (ha : w.Covers a ra) (hb : w.Covers b rb) (h : w.hull? a b = some raw) :
    (∀ x, x ∈ ra ∨ x ∈ rb → x ∈ raw) ↔ a.second ≠ b.second ∨ a ≤ b ∨ w.halfWidth = 0 := by
  rw [hull?_eq ha hb] at h
  cases h
  by_cases hle : a ≤ b
  · have hsecond : a.second ≤ b.second := by
      rw [Instant.le_def] at hle
      omega
    rw [if_pos hsecond]
    exact ⟨fun _ => .inr (.inl hle), fun _ x hx => ha.mem_between_of_le hb hle hx⟩
  · have hlt : b < a := Instant.not_le.1 hle
    have hge : b ≤ a := (Instant.le_total a b).resolve_left hle
    by_cases hsecond : a.second ≤ b.second
    · rw [if_pos hsecond]
      by_cases hw : w.halfWidth = 0
      · rw [ha.between_swap hb hw]
        exact ⟨fun _ => .inr (.inr hw), fun _ x hx => hb.mem_between_of_le ha hge hx.symm⟩
      · -- the later time comes first, and the hull begins after the front of the earlier one
        have hsame : a.second = b.second := by
          rw [Instant.lt_def] at hlt
          omega
        have hfront : rb.start ∈ rb := ⟨Instant.le_refl _, rb.start_le_stop⟩
        constructor
        · intro hall
          exact absurd (hall rb.start (.inr hfront)) (ha.start_not_mem hb hlt hw)
        · intro hcond
          simp only [hsame, ne_eq, not_true_eq_false, hle, hw, or_self] at hcond
    · rw [if_neg hsecond]
      exact ⟨fun _ => .inl (by omega), fun _ x hx => hb.mem_between_of_le ha hge hx.symm⟩

/-- The hull does not depend on which of the times comes first if they are not of one second, are the
same, or cover nothing but themselves. -/
theorem hull_comm_iff (ha : w.Covers a ra) (hb : w.Covers b rb) (h : w.hull? a b = some raw) :
    w.hull? b a = some raw ↔ a.second ≠ b.second ∨ a = b ∨ w.halfWidth = 0 := by
  constructor
  · intro hswapped
    have hiff := (hull_holds_iff ha hb h).symm.trans
      ((forall_congr' fun x => imp_congr_left Or.comm).trans (hull_holds_iff hb ha hswapped))
    by_cases hw : w.halfWidth = 0
    · exact .inr (.inr hw)
    · by_cases hsame : a.second = b.second
      · simp only [hsame, ne_eq, not_true_eq_false, hw, or_false, false_or] at hiff
        have hle : a ≤ b := (Instant.le_total a b).elim id hiff.2
        exact .inr (.inl (Instant.le_antisymm hle (hiff.1 hle)))
      · exact .inl hsame
  · rw [← h, hull?_eq ha hb, hull?_eq hb ha]
    rintro (hne | rfl | hw)
    · by_cases hab : a.second ≤ b.second
      · rw [if_pos hab, if_neg (by omega)]
      · rw [if_neg hab, if_pos (by omega)]
    · rw [← hull?_eq ha hb, ← hull?_eq hb ha]
    · rw [ha.between_swap hb hw, ite_self, ite_self]

/-- In any case the hull misses less than a second of what the times cover. -/
theorem hull_nears (ha : w.Covers a ra) (hb : w.Covers b rb) (h : w.hull? a b = some raw)
    (hxFree : x.isLeap = false) (hx : x ∈ ra ∨ x ∈ rb) : raw.Nears x := by
  have hiff := hull_holds_iff ha hb h
  by_cases hcond : a.second ≠ b.second ∨ a ≤ b ∨ w.halfWidth = 0
  · exact .inl (hiff.2 hcond x hx)
  · simp only [not_or, ne_eq, Decidable.not_not, Instant.not_le] at hcond
    obtain ⟨hsame, hlt, _⟩ := hcond
    rw [hull?_eq ha hb, if_pos (by omega)] at h
    cases h
    rw [ha.mem_iff hxFree, hb.mem_iff hxFree, Instant.distance_eq hxFree ha.leapFree,
      Instant.distance_eq hxFree hb.leapFree] at hx
    rw [Instant.lt_iff_nanos hb.leapFree ha.leapFree] at hlt
    have hnear : a.nanos < b.nanos + 1000000000 := by
      have := Instant.isLeap_eq_false_iff.1 ha.leapFree
      rw [Instant.nanos_eq, Instant.nanos_eq]
      omega
    obtain ⟨hstart, hstart'⟩ := ha.start
    obtain ⟨hstop, hstop'⟩ := hb.stop
    exact TimeRange.nears_between hstart hstop hxFree (by omega) (by omega)

theorem Covers.mem_between_of_second (ha : w.Covers a ra) (hb : w.Covers b rb)
    (hw : 1000000000 ≤ w.halfWidth) (hab : a.second ≤ b.second) :
    a ∈ TimeRange.between ra.start rb.stop ∧ b ∈ TimeRange.between ra.start rb.stop := by
  have hnanoA := Instant.isLeap_eq_false_iff.1 ha.leapFree
  have hnanoB := Instant.isLeap_eq_false_iff.1 hb.leapFree
  obtain ⟨hstart, hstart'⟩ := ha.start
  obtain ⟨hstop, hstop'⟩ := hb.stop
  rw [TimeRange.mem_between_iff_nanos hstart hstop ha.leapFree,
    TimeRange.mem_between_iff_nanos hstart hstop hb.leapFree, hstart', hstop',
    Instant.nanos_eq a, Instant.nanos_eq b]
  omega

/-- In a window of two seconds or more the hull holds both times, in whichever order they come. -/
theorem exists_hull_holding (ha : w.Covers a ra) (hb : w.Covers b rb)
    (hw : 1000000000 ≤ w.halfWidth) :
    ∃ raw, w.hull? a b = some raw ∧ raw.start.isLeap = false ∧ raw.stop.isLeap = false ∧
      a ∈ raw ∧ b ∈ raw := by
  rw [hull?_eq ha hb]
  refine ⟨_, rfl, ?_⟩
  split
  · rename_i hab
    obtain ⟨hstart, hstop⟩ :=
      TimeRange.bounds_between (P := fun t => t.isLeap = false) ha.start.1 hb.stop.1
    exact ⟨hstart, hstop, ha.mem_between_of_second hb hw hab⟩
  · rename_i hba
    obtain ⟨hstart, hstop⟩ :=
      TimeRange.bounds_between (P := fun t => t.isLeap = false) hb.start.1 ha.stop.1
    exact ⟨hstart, hstop, (hb.mem_between_of_second ha hw (by omega)).symm⟩

end Window

/-- **The hull of two times.** The hull of two times outside of leap seconds, which are those of a
record for example, exists if what they cover does not leave the calendar. It holds all that they
cover, and every row within half a width of one of them, if they are not of one second or come in
order; and it is the same for both orders if they are not of one second or are the same. Otherwise,
unless the window has no width, it misses less than a second at either end. The span of a record
begins with the earlier of its two times under the same condition. -/
theorem hull_covers_windows (ha : a.isLeap = false) (hb : b.isLeap = false)
    (hra : w.around? a = some ra) (hrb : w.around? b = some rb) :
    (∃ raw, w.hull? a b = some raw ∧
      ((∀ x, x ∈ ra ∨ x ∈ rb → x ∈ raw) ↔ a.second ≠ b.second ∨ a ≤ b ∨ w.halfWidth = 0) ∧
      (w.hull? b a = some raw ↔ a.second ≠ b.second ∨ a = b ∨ w.halfWidth = 0) ∧
      ∀ x, x.isLeap = false → x.distance a ≤ w.halfWidth ∨ x.distance b ≤ w.halfWidth →
        raw.Nears x ∧ (a.second ≠ b.second ∨ a ≤ b ∨ w.halfWidth = 0 → x ∈ raw)) ∧
    ∀ r : ViewRecord,
      (r.span = (r.timeOriginal, r.timeMain) ∨ r.span = (r.timeMain, r.timeOriginal)) ∧
      (r.span.1 ≤ r.span.2 ↔
        r.timeOriginal.second ≠ r.timeMain.second ∨ r.timeOriginal ≤ r.timeMain) := by
  have hca := Window.covers_of_around ha hra
  have hcb := Window.covers_of_around hb hrb
  have hraw := Window.hull?_eq hca hcb
  constructor
  · refine ⟨_, hraw, Window.hull_holds_iff hca hcb hraw, Window.hull_comm_iff hca hcb hraw, ?_⟩
    intro x hx hnear
    rw [← hca.mem_iff hx, ← hcb.mem_iff hx] at hnear
    exact ⟨Window.hull_nears hca hcb hraw hx hnear,
      fun hcond => (Window.hull_holds_iff hca hcb hraw).2 hcond x hnear⟩
  · intro r
    exact ⟨orderedPair_cases _ _, orderedPair_sorted _ _⟩

/-- `tenths` tenths of a second after four o'clock. -/
def afterFour (tenths : Fin 10) : Instant :=
  ⟨1742486400, tenths * 100000000, by omega, by decide, by decide⟩

def minute : Window := .ofMinutes 1

/-- The later one of two times of one second comes last. -/
theorem hull_covers_windows_ascending :
    ∃ raw, minute.hull? (afterFour 1) (afterFour 9) = some raw ∧
      (∀ x, x.isLeap = false → x.distance (afterFour 1) ≤ minute.halfWidth ∨
        x.distance (afterFour 9) ≤ minute.halfWidth → x ∈ raw) ∧
      minute.hull? (afterFour 9) (afterFour 1) ≠ some raw := by
  have hfirst : ∃ ra, minute.around? (afterFour 1) = some ra :=
    Option.isSome_iff_exists.1 (by decide)
  have hlast : ∃ rb, minute.around? (afterFour 9) = some rb :=
    Option.isSome_iff_exists.1 (by decide)
  obtain ⟨ra, hra⟩ := hfirst
  obtain ⟨rb, hrb⟩ := hlast
  obtain ⟨⟨raw, hraw, _, hcomm, hnear⟩, _⟩ :=
    hull_covers_windows (by decide) (by decide) hra hrb
  refine ⟨raw, hraw, fun x hx hclose => (hnear x hx hclose).2 (by decide), ?_⟩
  rw [Ne, hcomm]
  decide

/-- Half a second into a leap second at midnight. -/
def leapRow : Instant := ⟨1742515199, 1500000000, by decide, by decide, by decide⟩

/-- A minute and half a second after that midnight. -/
def afterMidnight : Instant := ⟨1742515260, 500000000, by decide, by decide, by decide⟩

/-- The later one of two times of one second comes first: the hull begins eight tenths after what
the earlier one covers, it is another one in the other order, and the span of a record with these
times begins with the later one. A row inside of a leap second is a minute away from a time of the
next day that covers a minute, and lies outside of the hull of that time. -/
theorem hull_misses :
    (∃ rb raw, minute.around? (afterFour 1) = some rb ∧
      minute.hull? (afterFour 9) (afterFour 1) = some raw ∧ rb.start ∈ rb ∧ rb.start ∉ raw ∧
      minute.hull? (afterFour 1) (afterFour 9) ≠ some raw ∧
      ∀ r : ViewRecord, r.timeOriginal = afterFour 9 → r.timeMain = afterFour 1 →
        ¬ r.span.1 ≤ r.span.2) ∧
    leapRow.distance afterMidnight ≤ (Window.ofMinutes 2).halfWidth ∧
      ∃ raw, (Window.ofMinutes 2).hull? afterMidnight afterMidnight = some raw ∧
        leapRow ∉ raw := by
  refine ⟨?_, by decide, ?_⟩
  · refine ⟨⟨⟨1742486370, 100000000, by decide, by decide, by decide⟩,
      ⟨1742486430, 100000000, by decide, by decide, by decide⟩, by decide⟩,
      ⟨⟨1742486370, 900000000, by decide, by decide, by decide⟩,
      ⟨1742486430, 100000000, by decide, by decide, by decide⟩, by decide⟩,
      by decide, by decide, by decide, by decide, by decide, ?_⟩
    intro r hto htm
    rw [ViewRecord.span, hto, htm]
    decide
  · exact ⟨⟨⟨1742515200, 500000000, by decide, by decide, by decide⟩,
      ⟨1742515320, 500000000, by decide, by decide, by decide⟩, by decide⟩, by decide, by decide⟩

end PinLedger
