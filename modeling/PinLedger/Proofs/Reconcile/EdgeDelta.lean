import PinLedger.Proofs.Time.Grid

/-!
# PinLedger.Proofs.Reconcile.EdgeDelta

An edge delta touches each time once at most: it goes down on the times that only the old range
holds, and up on those that only the new range holds.

* `count_startDelta?`, `count_endDelta?` — the strips at the two edges
* `count_edgeDelta?` — the whole delta
* `Ticks.exists_delta`, `exists_edgeDelta?` — no edge leaves the calendar
* `length_edgeDelta?` — there are two shifts at most
* `not_mem_of_edgeDelta?` — what ranges that meet share is not touched
-/

namespace PinLedger

/-- A shift in this direction, over a range that holds `x`. -/
def RangeShift.hits (x : Instant) (add : Bool) (s : RangeShift) : Bool :=
  s.add == add && decide (x ∈ s.range)

section

variable {P : Instant → Prop} {old new : TimeRange} {x : Instant} {ds : List RangeShift}

/-- One shift hits a time of its range, in its direction. -/
theorem count_hits_singleton (x : Instant) (add : Bool) (s : RangeShift) :
    [s].countP (RangeShift.hits x add) = if s.add = add ∧ x ∈ s.range then 1 else 0 := by
  by_cases h : s.add = add ∧ x ∈ s.range
  · rw [if_pos h]
    simp [RangeShift.hits, h.1, h.2]
  · rw [if_neg h]
    simpa [RangeShift.hits] using h

theorem count_startDelta? (hP : Grid P) (ho : P old.start) (hn : P new.start) (hx : P x)
    (h : startDelta? old new = some ds) :
    ds.countP (RangeShift.hits x true) = (if new.start ≤ x ∧ x < old.start then 1 else 0) ∧
      ds.countP (RangeShift.hits x false) = (if old.start ≤ x ∧ x < new.start then 1 else 0) := by
  have hle := hP.le_iff ho hx
  have hle' := hP.le_iff hn hx
  have hlt := hP.lt_iff hx ho
  have hlt' := hP.lt_iff hx hn
  have hon := hP.lt_iff ho hn
  have hno := hP.lt_iff hn ho
  unfold startDelta? at h
  by_cases hgrow : new.start < old.start
  · rw [if_pos hgrow] at h
    obtain ⟨c, hc, hds⟩ := Option.bind_eq_some_iff.1 h
    cases hds
    rw [count_hits_singleton, count_hits_singleton]
    have hmem := hP.mem_before hn ho hx hgrow hc
    rw [hno] at hgrow
    constructor
    · simp [hmem]
    · rw [if_neg (by simp), if_neg (by rw [hle, hlt']; omega)]
  · rw [if_neg hgrow] at h
    by_cases hshrink : old.start < new.start
    · rw [if_pos hshrink] at h
      obtain ⟨c, hc, hds⟩ := Option.bind_eq_some_iff.1 h
      cases hds
      rw [count_hits_singleton, count_hits_singleton]
      have hmem := hP.mem_before ho hn hx hshrink hc
      rw [hon] at hshrink
      constructor
      · rw [if_neg (by simp), if_neg (by rw [hle', hlt]; omega)]
      · simp [hmem]
    · rw [if_neg hshrink] at h
      cases h
      rw [hno] at hgrow
      rw [hon] at hshrink
      constructor
      · rw [if_neg (by rw [hle', hlt]; omega)]; rfl
      · rw [if_neg (by rw [hle, hlt']; omega)]; rfl

theorem count_endDelta? (hP : Grid P) (ho : P old.stop) (hn : P new.stop) (hx : P x)
    (h : endDelta? old new = some ds) :
    ds.countP (RangeShift.hits x true) = (if old.stop < x ∧ x ≤ new.stop then 1 else 0) ∧
      ds.countP (RangeShift.hits x false) = (if new.stop < x ∧ x ≤ old.stop then 1 else 0) := by
  have hle := hP.le_iff hx ho
  have hle' := hP.le_iff hx hn
  have hlt := hP.lt_iff ho hx
  have hlt' := hP.lt_iff hn hx
  have hon := hP.lt_iff ho hn
  have hno := hP.lt_iff hn ho
  unfold endDelta? at h
  by_cases hgrow : old.stop < new.stop
  · rw [if_pos hgrow] at h
    obtain ⟨c, hc, hds⟩ := Option.bind_eq_some_iff.1 h
    cases hds
    rw [count_hits_singleton, count_hits_singleton]
    have hmem := hP.mem_after hn ho hx hgrow hc
    rw [hon] at hgrow
    constructor
    · simp [hmem]
    · rw [if_neg (by simp), if_neg (by rw [hlt', hle]; omega)]
  · rw [if_neg hgrow] at h
    by_cases hshrink : new.stop < old.stop
    · rw [if_pos hshrink] at h
      obtain ⟨c, hc, hds⟩ := Option.bind_eq_some_iff.1 h
      cases hds
      rw [count_hits_singleton, count_hits_singleton]
      have hmem := hP.mem_after ho hn hx hshrink hc
      rw [hno] at hshrink
      constructor
      · rw [if_neg (by simp), if_neg (by rw [hlt, hle']; omega)]
      · simp [hmem]
    · rw [if_neg hshrink] at h
      cases h
      rw [hon] at hgrow
      rw [hno] at hshrink
      constructor
      · rw [if_neg (by rw [hlt, hle']; omega)]; rfl
      · rw [if_neg (by rw [hlt', hle]; omega)]; rfl

/-- On a grid an edge delta goes up exactly on the times that the new range gains, and down exactly
on those that it loses. -/
theorem count_edgeDelta? (hP : Grid P) (hos : P old.start) (hoe : P old.stop) (hns : P new.start)
    (hne : P new.stop) (hx : P x) (h : edgeDelta? old new = some ds) :
    ds.countP (RangeShift.hits x true) = (if x ∈ new ∧ x ∉ old then 1 else 0) ∧
      ds.countP (RangeShift.hits x false) = (if x ∈ old ∧ x ∉ new then 1 else 0) := by
  unfold edgeDelta? at h
  by_cases heq : old = new
  · rw [if_pos heq] at h
    cases h
    subst heq
    simp
  · rw [if_neg heq] at h
    by_cases hover : old.Overlaps new
    · rw [if_neg (not_not_intro hover)] at h
      obtain ⟨front, hfront, h⟩ := Option.bind_eq_some_iff.1 h
      obtain ⟨back, hback, h⟩ := Option.bind_eq_some_iff.1 h
      cases h
      obtain ⟨hup, hdown⟩ := count_startDelta? hP hos hns hx hfront
      obtain ⟨hup', hdown'⟩ := count_endDelta? hP hoe hne hx hback
      have ho := old.start_le_stop
      have hn := new.start_le_stop
      obtain ⟨h₁, h₂⟩ := hover
      rw [hP.le_iff hos hoe] at ho
      rw [hP.le_iff hns hne] at hn
      rw [hP.le_iff hos hne] at h₁
      rw [hP.le_iff hns hoe] at h₂
      rw [List.countP_append, List.countP_append, hup, hdown, hup', hdown']
      simp only [TimeRange.mem_def, hP.le_iff hos hx, hP.le_iff hns hx, hP.le_iff hx hoe,
        hP.le_iff hx hne, hP.lt_iff hx hos, hP.lt_iff hx hns, hP.lt_iff hoe hx, hP.lt_iff hne hx]
      -- the two strips of one direction are disjoint, since the ranges meet
      constructor
      · split <;> split <;> split <;> omega
      · split <;> split <;> split <;> omega
    · rw [if_pos hover] at h
      cases h
      have hdisj : ¬ (x ∈ old ∧ x ∈ new) := by
        rintro ⟨⟨h₁, h₂⟩, ⟨h₃, h₄⟩⟩
        exact hover ⟨Instant.le_trans h₁ h₄, Instant.le_trans h₃ h₂⟩
      by_cases hxo : x ∈ old
      · have hxn : x ∉ new := fun hxn => hdisj ⟨hxo, hxn⟩
        simp [RangeShift.hits, hxo, hxn]
      · simp [RangeShift.hits, hxo]

theorem exists_startDelta? (hP : Ticks P) (ho : P old.start) (hn : P new.start) :
    ∃ ds, startDelta? old new = some ds := by
  unfold startDelta?
  by_cases hgrow : new.start < old.start
  · obtain ⟨c, hc⟩ := hP.back _ _ hn ho hgrow
    rw [if_pos hgrow, hc]
    exact ⟨_, rfl⟩
  · rw [if_neg hgrow]
    by_cases hshrink : old.start < new.start
    · obtain ⟨c, hc⟩ := hP.back _ _ ho hn hshrink
      rw [if_pos hshrink, hc]
      exact ⟨_, rfl⟩
    · rw [if_neg hshrink]
      exact ⟨_, rfl⟩

theorem exists_endDelta? (hP : Ticks P) (ho : P old.stop) (hn : P new.stop) :
    ∃ ds, endDelta? old new = some ds := by
  unfold endDelta?
  by_cases hgrow : old.stop < new.stop
  · obtain ⟨c, hc⟩ := hP.forth _ _ hn ho hgrow
    rw [if_pos hgrow, hc]
    exact ⟨_, rfl⟩
  · rw [if_neg hgrow]
    by_cases hshrink : new.stop < old.stop
    · obtain ⟨c, hc⟩ := hP.forth _ _ ho hn hshrink
      rw [if_pos hshrink, hc]
      exact ⟨_, rfl⟩
    · rw [if_neg hshrink]
      exact ⟨_, rfl⟩

/-- No edge of a delta leaves the calendar: a tick only leads back towards the other bound. -/
theorem Ticks.exists_delta (hP : Ticks P) (hos : P old.start) (hoe : P old.stop)
    (hns : P new.start) (hne : P new.stop) : ∃ ds, edgeDelta? old new = some ds := by
  obtain ⟨front, hfront⟩ := exists_startDelta? hP hos hns
  obtain ⟨back, hback⟩ := exists_endDelta? hP hoe hne
  unfold edgeDelta?
  rw [hfront, hback]
  split
  · exact ⟨_, rfl⟩
  · split
    · exact ⟨_, rfl⟩
    · exact ⟨_, rfl⟩

theorem exists_edgeDelta? (hP : Grid P) (hos : P old.start) (hoe : P old.stop)
    (hns : P new.start) (hne : P new.stop) : ∃ ds, edgeDelta? old new = some ds :=
  hP.ticks.exists_delta hos hoe hns hne

end

/-! ### Ranges that meet -/

section

variable {old new : TimeRange} {x : Instant} {ds : List RangeShift} {s : RangeShift}

theorem TimeRange.lt_of_mem_between {a b c : Instant} (ha : a < c) (hb : b < c)
    (hx : x ∈ between a b) : x < c := by
  rw [← Instant.not_le] at *
  rcases mem_between.1 hx with ⟨_, hle⟩ | ⟨_, hle⟩
  · exact fun hc => hb (Instant.le_trans hc hle)
  · exact fun hc => ha (Instant.le_trans hc hle)

theorem TimeRange.gt_of_mem_between {a b c : Instant} (ha : c < a) (hb : c < b)
    (hx : x ∈ between a b) : c < x := by
  rw [← Instant.not_le] at *
  rcases mem_between.1 hx with ⟨hle, _⟩ | ⟨hle, _⟩
  · exact fun hc => ha (Instant.le_trans hle hc)
  · exact fun hc => hb (Instant.le_trans hle hc)

theorem length_startDelta? (h : startDelta? old new = some ds) : ds.length ≤ 1 := by
  unfold startDelta? at h
  split at h
  · obtain ⟨c, _, hds⟩ := Option.bind_eq_some_iff.1 h
    cases hds
    exact Nat.le_refl 1
  · split at h
    · obtain ⟨c, _, hds⟩ := Option.bind_eq_some_iff.1 h
      cases hds
      exact Nat.le_refl 1
    · cases h
      exact Nat.zero_le 1

theorem length_endDelta? (h : endDelta? old new = some ds) : ds.length ≤ 1 := by
  unfold endDelta? at h
  split at h
  · obtain ⟨c, _, hds⟩ := Option.bind_eq_some_iff.1 h
    cases hds
    exact Nat.le_refl 1
  · split at h
    · obtain ⟨c, _, hds⟩ := Option.bind_eq_some_iff.1 h
      cases hds
      exact Nat.le_refl 1
    · cases h
      exact Nat.zero_le 1

theorem length_edgeDelta? (h : edgeDelta? old new = some ds) : ds.length ≤ 2 := by
  unfold edgeDelta? at h
  split at h
  · cases h
    exact Nat.zero_le 2
  · split at h
    · cases h
      exact Nat.le_refl 2
    · obtain ⟨front, hfront, h⟩ := Option.bind_eq_some_iff.1 h
      obtain ⟨back, hback, h⟩ := Option.bind_eq_some_iff.1 h
      cases h
      have hlength := length_startDelta? hfront
      have hlength' := length_endDelta? hback
      rw [List.length_append]
      omega

/-- The strip at the front edge lies before one of the ranges. -/
theorem before_of_startDelta? (ho : old.start.isLeap = false) (hn : new.start.isLeap = false)
    (h : startDelta? old new = some ds) (hs : s ∈ ds) (hx : x ∈ s.range) :
    x < old.start ∨ x < new.start := by
  unfold startDelta? at h
  by_cases hgrow : new.start < old.start
  · rw [if_pos hgrow] at h
    obtain ⟨c, hc, hds⟩ := Option.bind_eq_some_iff.1 h
    cases hds
    cases List.mem_singleton.1 hs
    exact .inl (TimeRange.lt_of_mem_between hgrow (Instant.lt_of_sub? (by decide) ho hc) hx)
  · rw [if_neg hgrow] at h
    by_cases hshrink : old.start < new.start
    · rw [if_pos hshrink] at h
      obtain ⟨c, hc, hds⟩ := Option.bind_eq_some_iff.1 h
      cases hds
      cases List.mem_singleton.1 hs
      exact .inr (TimeRange.lt_of_mem_between hshrink (Instant.lt_of_sub? (by decide) hn hc) hx)
    · rw [if_neg hshrink] at h
      cases h
      cases hs

/-- The strip at the back edge lies after one of the ranges. -/
theorem after_of_endDelta? (ho : old.stop.isLeap = false) (hn : new.stop.isLeap = false)
    (h : endDelta? old new = some ds) (hs : s ∈ ds) (hx : x ∈ s.range) :
    old.stop < x ∨ new.stop < x := by
  unfold endDelta? at h
  by_cases hgrow : old.stop < new.stop
  · rw [if_pos hgrow] at h
    obtain ⟨c, hc, hds⟩ := Option.bind_eq_some_iff.1 h
    cases hds
    cases List.mem_singleton.1 hs
    exact .inl (TimeRange.gt_of_mem_between (Instant.lt_of_add? (by decide) ho hc) hgrow hx)
  · rw [if_neg hgrow] at h
    by_cases hshrink : new.stop < old.stop
    · rw [if_pos hshrink] at h
      obtain ⟨c, hc, hds⟩ := Option.bind_eq_some_iff.1 h
      cases hds
      cases List.mem_singleton.1 hs
      exact .inr (TimeRange.gt_of_mem_between (Instant.lt_of_add? (by decide) hn hc) hshrink hx)
    · rw [if_neg hshrink] at h
      cases h
      cases hs

/-- The delta of two ranges that meet is made of the strips at their edges. -/
theorem edgeDelta?_of_overlaps (hover : old.Overlaps new) :
    edgeDelta? old new =
      (startDelta? old new).bind fun front => (endDelta? old new).map (front ++ ·) := by
  unfold edgeDelta?
  by_cases heq : old = new
  · subst heq
    have hirrefl : ∀ t : Instant, ¬ t < t := fun t h => Instant.not_le.2 h (Instant.le_refl t)
    simp [startDelta?, endDelta?, hirrefl]
  · rw [if_neg heq, if_neg (not_not_intro hover)]
    cases startDelta? old new with
    | none => rfl
    | some front =>
      cases endDelta? old new with
      | none => rfl
      | some back => rfl

/-- The delta of two ranges that meet touches nothing of what they share. -/
theorem not_mem_of_edgeDelta? (hover : old.Overlaps new) (hos : old.start.isLeap = false)
    (hoe : old.stop.isLeap = false) (hns : new.start.isLeap = false)
    (hne : new.stop.isLeap = false) (h : edgeDelta? old new = some ds) (hs : s ∈ ds)
    (hx : x ∈ s.range) : ¬ (x ∈ old ∧ x ∈ new) := by
  rw [edgeDelta?_of_overlaps hover] at h
  obtain ⟨front, hfront, h⟩ := Option.bind_eq_some_iff.1 h
  obtain ⟨back, hback, rfl⟩ := Option.map_eq_some_iff.1 h
  rintro ⟨hold, hnew⟩
  rcases List.mem_append.1 hs with hs | hs
  · rcases before_of_startDelta? hos hns hfront hs hx with hlt | hlt
    · exact Instant.not_le.2 hlt hold.1
    · exact Instant.not_le.2 hlt hnew.1
  · rcases after_of_endDelta? hoe hne hback hs hx with hlt | hlt
    · exact Instant.not_le.2 hlt hold.2
    · exact Instant.not_le.2 hlt hnew.2

end
end PinLedger
