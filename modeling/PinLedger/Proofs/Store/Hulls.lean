import PinLedger.Proofs.Store.Rows
import PinLedger.Proofs.Time.Nanos

/-!
# PinLedger.Proofs.Store.Hulls

Where the hull of two times lies. The hull orders its two times by whole seconds and may swap its
bounds; if what the times cover meets, it reaches from the front of one range to the back of the
other and there is no gap in it. Snapping then moves a bound to the nearest row, past no other row.

* `Window.Covers` — the range that a time outside of leap seconds covers
* `overlaps_iff_overlaps` — two times are close together if and only if these ranges meet
* `Table.eq_snap` — no row lies between an instant and the row that it is snapped to
* `Table.snap_le_snap` — snapping keeps the order of instants
* `Window.Joined`, `exists_joined` — the hull of two times that are close together
-/

namespace PinLedger

variable {w : Window} {a b o m x : Instant} {ra rb ro rm raw : TimeRange}

/-- `r` reaches from half a width before `t`, which lies outside of leap seconds, to half a width
after it. -/
structure Window.Covers (w : Window) (t : Instant) (r : TimeRange) : Prop where
  leapFree : t.isLeap = false
  back : t.sub? w.halfWidth = some r.start
  forth : t.add? w.halfWidth = some r.stop

namespace Window

theorem covers_of_around (ha : a.isLeap = false) (h : w.around? a = some ra) : w.Covers a ra := by
  obtain ⟨start, hstart, h⟩ := Option.bind_eq_some_iff.1 h
  obtain ⟨stop, hstop, h⟩ := Option.bind_eq_some_iff.1 h
  cases h
  obtain ⟨hstartFree, hstartNanos⟩ := Instant.nanos_of_sub? ha hstart
  obtain ⟨hstopFree, hstopNanos⟩ := Instant.nanos_of_add? ha hstop
  have hle : start ≤ stop := by
    rw [Instant.le_iff_nanos hstartFree hstopFree]
    omega
  rw [TimeRange.between_of_le hle]
  exact ⟨ha, hstart, hstop⟩

namespace Covers

theorem start (h : w.Covers a ra) :
    ra.start.isLeap = false ∧ ra.start.nanos = a.nanos - w.halfWidth :=
  Instant.nanos_of_sub? h.leapFree h.back

theorem stop (h : w.Covers a ra) :
    ra.stop.isLeap = false ∧ ra.stop.nanos = a.nanos + w.halfWidth :=
  Instant.nanos_of_add? h.leapFree h.forth

theorem mem_iff (h : w.Covers a ra) (hx : x.isLeap = false) :
    x ∈ ra ↔ x.distance a ≤ w.halfWidth := by
  obtain ⟨hstart, hstartNanos⟩ := h.start
  obtain ⟨hstop, hstopNanos⟩ := h.stop
  rw [TimeRange.mem_def, Instant.le_iff_nanos hstart hx, Instant.le_iff_nanos hx hstop,
    Instant.distance_eq hx h.leapFree]
  omega

theorem overlaps_iff (ha : w.Covers a ra) (hb : w.Covers b rb) :
    ra.Overlaps rb ↔ (b.nanos - a.nanos).natAbs ≤ 2 * w.halfWidth := by
  unfold TimeRange.Overlaps
  rw [Instant.le_iff_nanos ha.start.1 hb.stop.1, Instant.le_iff_nanos hb.start.1 ha.stop.1,
    ha.start.2, ha.stop.2, hb.start.2, hb.stop.2]
  omega

end Covers

theorem overlaps_iff_overlaps (ho : w.Covers o ro) (hm : w.Covers m rm) :
    w.overlaps o m = true ↔ ro.Overlaps rm := by
  rw [ho.overlaps_iff hm]
  unfold overlaps
  rw [decide_eq_true_iff, Instant.distance_eq hm.leapFree ho.leapFree]

/-- The hull of two times that are close together reaches from the front of what one of them covers
to the back of what the other one covers. -/
theorem exists_hull (ha : w.Covers a ra) (hb : w.Covers b rb) (h : ra.Overlaps rb) :
    ∃ raw, w.hull? a b = some raw ∧
      (raw.start = ra.start ∧ raw.stop = rb.stop ∨ raw.start = rb.start ∧ raw.stop = ra.stop) := by
  unfold hull? orderedPair
  -- within a second the later time may come first; as the ranges meet, no bounds are swapped for it
  by_cases hab : a.second ≤ b.second
  · simp only [hab, if_true, ha.back, hb.forth]
    exact ⟨_, congrArg some (TimeRange.between_of_le h.1), .inl ⟨rfl, rfl⟩⟩
  · simp only [hab, if_false, hb.back, ha.forth]
    exact ⟨_, congrArg some (TimeRange.between_of_le h.2), .inr ⟨rfl, rfl⟩⟩

end Window

/-- There is no gap between two ranges that meet. -/
theorem TimeRange.mem_or_mem (h : ra.Overlaps rb) (hstart : ra.start ≤ x) (hstop : x ≤ rb.stop) :
    x ∈ ra ∨ x ∈ rb := by
  by_cases hx : x ≤ ra.stop
  · exact .inl ⟨hstart, hx⟩
  · have hafter : ra.stop ≤ x := (Instant.le_total x ra.stop).resolve_left hx
    exact .inr ⟨Instant.le_trans h.2 hafter, hstop⟩

/-! ### Rows near the bounds -/

namespace Table

theorem nearer_iff {target a b : Instant} :
    nearer target a b = true ↔
      a.distance target < b.distance target ∨ (a.distance target = b.distance target ∧ a ≤ b) :=
  decide_eq_true_iff

theorem nearer_refl (target a : Instant) : nearer target a a = true :=
  nearer_iff.2 (.inr ⟨rfl, Instant.le_refl a⟩)

theorem nearer_trans {target a b c : Instant} (hab : nearer target a b = true)
    (hbc : nearer target b c = true) : nearer target a c = true := by
  rw [nearer_iff] at *
  rcases hab with hab | ⟨hab, hle⟩
  · left
    omega
  · rcases hbc with hbc | ⟨hbc, hle'⟩
    · left
      omega
    · exact .inr ⟨hab.trans hbc, Instant.le_trans hle hle'⟩

theorem nearer_of_not {target a b : Instant} (h : ¬ nearer target a b = true) :
    nearer target b a = true := by
  rw [nearer_iff, not_or, not_and] at h
  rw [nearer_iff]
  by_cases hd : a.distance target = b.distance target
  · exact .inr ⟨hd.symm, (Instant.le_total a b).resolve_left (h.2 hd)⟩
  · left
    omega

/-- The one that is found is at least as near as every other. -/
theorem nearer_nearestOf {target s : Instant} {ts : List Instant}
    (h : nearestOf target ts = some s) : ∀ x ∈ ts, nearer target s x = true := by
  induction ts generalizing s with
  | nil => cases h
  | cons u us ih =>
    unfold nearestOf at h
    cases hus : nearestOf target us with
    | none =>
      rw [hus] at h
      cases h
      intro x hx
      rw [nearestOf_eq_none hus] at hx
      rw [List.mem_singleton.1 hx]
      exact nearer_refl target u
    | some s' =>
      rw [hus] at h
      have hrest := ih hus
      intro x hx
      by_cases hn : nearer target u s' = true
      · simp only [hn, if_true, Option.some.injEq] at h
        subst h
        rcases List.mem_cons.1 hx with rfl | hx
        · exact nearer_refl target x
        · exact nearer_trans hn (hrest x hx)
      · simp only [hn, Bool.false_eq_true, if_false, Option.some.injEq] at h
        subst h
        rcases List.mem_cons.1 hx with rfl | hx
        · exact nearer_of_not hn
        · exact hrest x hx

variable {t : Table} {target : Instant}

theorem nearer_snap (target : Instant) (hx : x ∈ t.times) :
    nearer target (t.snap target) x = true := by
  unfold snap nearest?
  cases hn : nearestOf target (t.rows.map (·.time)) with
  | none =>
    have hnil : t.times = [] := nearestOf_eq_none hn
    rw [hnil] at hx
    cases hx
  | some s => exact nearer_nearestOf hn x hx

theorem distance_snap (target : Instant) (hx : x ∈ t.times) :
    (t.snap target).distance target ≤ x.distance target := by
  have hnear := nearer_iff.1 (nearer_snap target hx)
  omega

theorem isLeap_snap (hfree : ∀ y ∈ t.times, y.isLeap = false) (htarget : target.isLeap = false) :
    (t.snap target).isLeap = false := by
  by_cases hrows : t.times = []
  · rw [snap_of_empty hrows]
    exact htarget
  · exact hfree _ (snap_mem_times hrows target)

/-- Snapping keeps the order of two instants. -/
theorem snap_le_snap (hfree : ∀ y ∈ t.times, y.isLeap = false) (ha : a.isLeap = false)
    (hb : b.isLeap = false) (hab : a ≤ b) : t.snap a ≤ t.snap b := by
  by_cases hrows : t.times = []
  · rw [snap_of_empty hrows, snap_of_empty hrows]
    exact hab
  · have hsa := isLeap_snap hfree ha
    have hsb := isLeap_snap hfree hb
    -- each of the two rows is nearer to its own instant than the other row is
    have hnearA := nearer_iff.1 (nearer_snap a (snap_mem_times hrows b))
    have hnearB := nearer_iff.1 (nearer_snap b (snap_mem_times hrows a))
    rw [Instant.distance_eq hsa ha, Instant.distance_eq hsb ha,
      Instant.le_iff_nanos hsa hsb] at hnearA
    rw [Instant.distance_eq hsb hb, Instant.distance_eq hsa hb,
      Instant.le_iff_nanos hsb hsa] at hnearB
    rw [Instant.le_iff_nanos ha hb] at hab
    rw [Instant.le_iff_nanos hsa hsb]
    omega

/-- A row between an instant and the row that it is snapped to is that row. -/
theorem eq_snap (hfree : ∀ y ∈ t.times, y.isLeap = false) (htarget : target.isLeap = false)
    (hx : x ∈ t.times)
    (h : t.snap target ≤ x ∧ x ≤ target ∨ target ≤ x ∧ x ≤ t.snap target) :
    x = t.snap target := by
  have hxFree := hfree x hx
  have hsFree := hfree _ (snap_mem_times (List.ne_nil_of_mem hx) target)
  have hclose := distance_snap target hx
  rw [Instant.distance_eq hxFree htarget, Instant.distance_eq hsFree htarget] at hclose
  rw [Instant.le_iff_nanos hsFree hxFree, Instant.le_iff_nanos hxFree htarget,
    Instant.le_iff_nanos htarget hxFree, Instant.le_iff_nanos hxFree hsFree] at h
  rw [Instant.eq_iff_nanos hxFree hsFree]
  omega

/-- A row in a snapped range lies in the range as it was, or it is one of the bounds. -/
theorem mem_of_mem_snapped (hfree : ∀ y ∈ t.times, y.isLeap = false)
    (hstart : raw.start.isLeap = false) (hstop : raw.stop.isLeap = false) (hx : x ∈ t.times)
    (h : x ∈ TimeRange.between (t.snap raw.start) (t.snap raw.stop)) :
    x ∈ raw ∨ x = t.snap raw.start ∨ x = t.snap raw.stop := by
  rcases Instant.le_total raw.start x with hafter | hbefore
  · rcases Instant.le_total x raw.stop with hbefore | hafter'
    · exact .inl ⟨hafter, hbefore⟩
    · -- past the back of the range: the bound that was moved beyond the row is the row
      rcases TimeRange.mem_between.1 h with ⟨_, hle⟩ | ⟨_, hle⟩
      · exact .inr (.inr (eq_snap hfree hstop hx (.inr ⟨hafter', hle⟩)))
      · exact .inr (.inl (eq_snap hfree hstart hx (.inr ⟨hafter, hle⟩)))
  · have hbefore' : x ≤ raw.stop := Instant.le_trans hbefore raw.start_le_stop
    rcases TimeRange.mem_between.1 h with ⟨hle, _⟩ | ⟨hle, _⟩
    · exact .inr (.inl (eq_snap hfree hstart hx (.inl ⟨hle, hbefore⟩)))
    · exact .inr (.inr (eq_snap hfree hstop hx (.inl ⟨hle, hbefore'⟩)))

end Table

/-! ### Two times that are close together -/

/-- How the hull `raw` of two times lies to the ranges `ro` and `rm` that they cover. -/
structure Window.Joined (w : Window) (o m : Instant) (ro rm raw : TimeRange) : Prop where
  length : raw.stop.since raw.start ≤ 4 * w.halfWidth
  inside : ∀ x ∈ raw, x ∈ ro ∨ x ∈ rm
  near : ∀ x ∈ raw, x.isLeap = false → x.distance o ≤ w.halfWidth ∨ x.distance m ≤ w.halfWidth
  /-- A row in the range that planning takes for the two times, and that neither covers, is one to
  which a bound of the hull was snapped. -/
  rows : ∀ (d : StoreData) (c : Column) (t : Table) (range : TimeRange),
    d.lookup.hull w c o m = .ok range → d.tables.find? c.table = some t →
    (∀ y ∈ t.times, y.isLeap = false) →
    ∀ x ∈ t.times, x ∈ range → x ∈ ro ∨ x ∈ rm ∨ x = t.snap raw.start ∨ x = t.snap raw.stop

theorem Window.exists_joined (ho : w.Covers o ro) (hm : w.Covers m rm) (h : ro.Overlaps rm) :
    ∃ raw, w.hull? o m = some raw ∧ w.Joined o m ro rm raw := by
  obtain ⟨raw, hraw, hbounds⟩ := exists_hull ho hm h
  have hfree : raw.start.isLeap = false ∧ raw.stop.isLeap = false := by
    rcases hbounds with ⟨hstart, hstop⟩ | ⟨hstart, hstop⟩
    · exact ⟨hstart ▸ ho.start.1, hstop ▸ hm.stop.1⟩
    · exact ⟨hstart ▸ hm.start.1, hstop ▸ ho.stop.1⟩
  have hinside : ∀ x ∈ raw, x ∈ ro ∨ x ∈ rm := by
    intro x hx
    rcases hbounds with ⟨hstart, hstop⟩ | ⟨hstart, hstop⟩
    · exact TimeRange.mem_or_mem h (hstart ▸ hx.1) (hstop ▸ hx.2)
    · exact (TimeRange.mem_or_mem ⟨h.2, h.1⟩ (hstart ▸ hx.1) (hstop ▸ hx.2)).symm
  refine ⟨raw, hraw, ?_, hinside, ?_, ?_⟩
  · have hclose := (ho.overlaps_iff hm).1 h
    rw [Instant.since_eq hfree.2 hfree.1]
    rcases hbounds with ⟨hstart, hstop⟩ | ⟨hstart, hstop⟩
    · rw [hstart, hstop, ho.start.2, hm.stop.2]
      omega
    · rw [hstart, hstop, hm.start.2, ho.stop.2]
      omega
  · intro x hx hxFree
    rw [← ho.mem_iff hxFree, ← hm.mem_iff hxFree]
    exact hinside x hx
  · intro d c t range hrange ht hrows x hxt hx
    obtain ⟨t', ht', _, hhull⟩ := hull_eq_ok hrange
    rw [ht] at ht'
    cases ht'
    unfold Table.hull? at hhull
    rw [hraw] at hhull
    cases hhull
    rcases Table.mem_of_mem_snapped hrows hfree.1 hfree.2 hxt hx with hmem | hbound
    · exact (hinside x hmem).imp_right .inl
    · exact .inr (.inr hbound)

end PinLedger
