import PinLedger.Proofs.Reconcile.Extension
import PinLedger.Proofs.Run.Conservation

/-!
# PinLedger.Proofs.Reconcile.Calendar

Planning stays in the calendar. The bounds of a hull are row times, or, in an empty table, lie half
a width from the times of a record. From a row time the ticks of a delta lead towards another row,
and from a bound of an empty table there is room for them.

* `Window.Inner` — half a width and a tick inside of the calendar
* `Table.Bound`, `ticks_bound` — the bounds of hulls, and the room between them
* `error_in_calendar` — how a step can fail
* `times_agenda` — the times in the steps for a view
* `plan_in_calendar` — no plan fails because an instant leaves the calendar
-/

namespace PinLedger

variable {reg : Registry} {w : Window} {previous : Option ViewRecord} {v : ParsedView}
variable {d : StoreData} {c : Column} {t : Table} {a b x : Instant} {s : PlanStep}
variable {l : MappedLayer} {e : PlanError}

namespace Instant

def first : Instant := ⟨firstSecond, 0, Instant.epoch.nano_lt, by decide, by decide⟩

/-- The last moment of the calendar outside of leap seconds. -/
def last : Instant := ⟨lastSecond, 999999999, by decide, by decide, by decide⟩

/-- The longest length of time that can be held: the milliseconds of a signed word. -/
def longest : Nat := 9223372036854775807 * 1000000

theorem distance_le_longest (a b : Instant) : a.distance b ≤ longest := by
  have hadjust : -1 ≤ leapAdjustment a b ∧ leapAdjustment a b ≤ 1 := by
    unfold leapAdjustment
    split
    · split <;> omega
    · split
      · split <;> omega
      · omega
  have hnanoA := a.nano_lt
  have hnanoB := b.nano_lt
  have hfirstA := a.first_le
  have hfirstB := b.first_le
  have hlastA := a.le_last
  have hlastB := b.le_last
  unfold distance since longest
  rw [nanosPerSecond_eq]
  omega

/-- There is room for a tick on both sides. -/
structure Roomy (t : Instant) : Prop where
  back : ∃ u, t.sub? tick = some u
  forth : ∃ u, t.add? tick = some u

theorem roomy_of_nanos (hx : x.isLeap = false)
    (hfirst : firstSecond * 1000000000 + 1000 ≤ x.nanos)
    (hlast : x.nanos + 1000 < (lastSecond + 1) * 1000000000) : x.Roomy := by
  have htick := Grid.tick_eq
  exact ⟨exists_sub? hx (by omega) (by omega), exists_add? hx (by omega) (by omega)⟩

end Instant

/-! ### Times inside of the calendar -/

/-- Outside of leap seconds, and half a width and a tick away from both ends of the calendar. -/
structure Window.Inner (w : Window) (t : Instant) : Prop where
  leapFree : t.isLeap = false
  before : w.halfWidth + tick ≤ t.since .first
  after : w.halfWidth + tick ≤ Instant.last.since t

theorem Window.Inner.nanos (h : w.Inner x) :
    Instant.firstSecond * 1000000000 + w.halfWidth + 1000 ≤ x.nanos ∧
      x.nanos + w.halfWidth + 1000 < (Instant.lastSecond + 1) * 1000000000 := by
  have hbefore := h.before
  have hafter := h.after
  rw [Instant.since_eq h.leapFree (by decide), Grid.tick_eq, Instant.nanos_eq .first] at hbefore
  rw [Instant.since_eq (by decide) h.leapFree, Grid.tick_eq, Instant.nanos_eq .last] at hafter
  unfold Instant.first at hbefore
  unfold Instant.last at hafter
  simp only at hbefore hafter
  omega

theorem Window.Inner.exists_covers (h : w.Inner x) :
    ∃ range, w.Covers x range ∧ range.start.Roomy ∧ range.stop.Roomy := by
  obtain ⟨hfirst, hlast⟩ := h.nanos
  obtain ⟨start, hstart⟩ : ∃ u, x.sub? w.halfWidth = some u :=
    Instant.exists_sub? h.leapFree (by omega) (by omega)
  obtain ⟨stop, hstop⟩ : ∃ u, x.add? w.halfWidth = some u :=
    Instant.exists_add? h.leapFree (by omega) (by omega)
  have haround : w.around? x = some (.between start stop) := by
    unfold Window.around?
    rw [hstart, hstop]
    rfl
  have hcovers := Window.covers_of_around h.leapFree haround
  obtain ⟨hfree, hnanos⟩ := hcovers.start
  obtain ⟨hfree', hnanos'⟩ := hcovers.stop
  refine ⟨_, hcovers, Instant.roomy_of_nanos hfree ?_ ?_, Instant.roomy_of_nanos hfree' ?_ ?_⟩
  all_goals omega

theorem Window.exists_hull_roomy (ha : w.Inner a) (hb : w.Inner b) :
    ∃ raw, w.hull? a b = some raw ∧ raw.start.Roomy ∧ raw.stop.Roomy := by
  obtain ⟨ra, hca, hstartA, hstopA⟩ := ha.exists_covers
  obtain ⟨rb, hcb, hstartB, hstopB⟩ := hb.exists_covers
  rw [Window.hull?_eq hca hcb]
  refine ⟨_, rfl, ?_⟩
  split
  · exact TimeRange.bounds_between (P := Instant.Roomy) hstartA hstopB
  · exact TimeRange.bounds_between (P := Instant.Roomy) hstartB hstopA

/-! ### Hulls on the rows of a table -/

namespace Table

/-- What the bound of a hull may be: a row time, or any instant with room in an empty table. -/
def Bound (t : Table) (x : Instant) : Prop := x ∈ t.times ∨ t.times = [] ∧ x.Roomy

theorem ticks_bound (hgrid : Grid (· ∈ t.times)) : Ticks t.Bound where
  back := by
    rintro a b (ha | ⟨hempty, _⟩) (hb | ⟨hempty', hroom⟩) hab
    · exact hgrid.exists_before ha hb hab
    · exact hroom.back
    · rw [hempty] at hb
      cases hb
    · exact hroom.back
  forth := by
    rintro a b (ha | ⟨hempty, _⟩) (hb | ⟨hempty', hroom⟩) hba
    · exact hgrid.exists_after ha hb hba
    · exact hroom.forth
    · rw [hempty] at hb
      cases hb
    · exact hroom.forth

theorem bound_snap (hx : x.Roomy) : t.Bound (t.snap x) := by
  by_cases hrows : t.times = []
  · rw [snap_of_empty hrows]
    exact .inr ⟨hrows, hx⟩
  · exact .inl (snap_mem_times hrows x)

theorem exists_hull_bound (t : Table) (ha : w.Inner a) (hb : w.Inner b) :
    ∃ range, t.hull? w a b = some range ∧ t.Bound range.start ∧ t.Bound range.stop := by
  obtain ⟨raw, hraw, hstart, hstop⟩ := Window.exists_hull_roomy ha hb
  refine ⟨.between (t.snap raw.start) (t.snap raw.stop), ?_,
    TimeRange.bounds_between (bound_snap hstart) (bound_snap hstop)⟩
  unfold hull?
  rw [hraw]
  rfl

end Table

theorem hull_of_known (hfind : d.tables.find? c.table = some t) (hcolumn : t.column = c.name)
    (ha : w.Inner a) (hb : w.Inner b) :
    ∃ range, d.lookup.hull w c a b = .ok range ∧ t.Bound range.start ∧ t.Bound range.stop := by
  obtain ⟨range, hrange, hbounds⟩ := t.exists_hull_bound ha hb
  refine ⟨range, ?_, hbounds⟩
  rw [hull_of_table hfind hcolumn, hrange]
  rfl

theorem hull_of_unknown (hc : ¬ d.Known c) (ha : w.Inner a) (hb : w.Inner b) :
    ∃ err, d.lookup.hull w c a b = .error (.store err) := by
  obtain ⟨raw, hraw, _⟩ := Window.exists_hull_roomy ha hb
  cases htable : d.table c "nearest_timestamp" with
  | ok t => exact absurd ⟨t, table_eq_ok.1 htable⟩ hc
  | error err =>
    refine ⟨err, ?_⟩
    unfold RowLookup.hull snappedHull snapDirect RowLookup.ask StoreData.lookup
    rw [hraw, htable]
    rfl

/-! ### Steps inside of the calendar -/

/-- The times whose hulls a step asks for. -/
def PlanStep.times : PlanStep → List Instant
  | .cover _ a b _ => [a, b]
  | .move _ a b b' => [a, b, b']
  | .unmapped _ _ => []

theorem operations_of_known (hd : d.Spaced) (hs : ∀ x ∈ s.times, w.Inner x)
    (hbinding : s.binding? = some l) (hl : d.Known l.column) :
    ∃ ops, s.operations (snapDirect d.lookup.ask) w = .ok ops := by
  obtain ⟨t, hfind, hcolumn⟩ := hl
  cases s with
  | cover l a b add =>
    cases hbinding
    obtain ⟨range, hrange, _⟩ := hull_of_known hfind hcolumn (hs a (by simp [PlanStep.times]))
      (hs b (by simp [PlanStep.times]))
    exact ⟨_, bind_eq_ok.2 ⟨range, hrange, rfl⟩⟩
  | move l a b b' =>
    cases hbinding
    have ha := hs a (by simp [PlanStep.times])
    obtain ⟨old, hold, hos, hoe⟩ :=
      hull_of_known hfind hcolumn ha (hs b (by simp [PlanStep.times]))
    obtain ⟨new, hnew, hns, hne⟩ :=
      hull_of_known hfind hcolumn ha (hs b' (by simp [PlanStep.times]))
    obtain ⟨ds, hds⟩ := (Table.ticks_bound (hd _ t hfind)).exists_delta hos hoe hns hne
    refine ⟨ds.map fun s => ⟨l, s.range, s.add⟩,
      bind_eq_ok.2 ⟨old, hold, bind_eq_ok.2 ⟨new, hnew, ?_⟩⟩⟩
    rw [hds]
    rfl
  | unmapped view layer => cases hbinding

theorem operations_of_unknown (hs : ∀ x ∈ s.times, w.Inner x) (hbinding : s.binding? = some l)
    (hl : ¬ d.Known l.column) :
    ∃ err, s.operations (snapDirect d.lookup.ask) w = .error (.store err) := by
  cases s with
  | cover l a b add =>
    cases hbinding
    obtain ⟨err, herr⟩ := hull_of_unknown hl (hs a (by simp [PlanStep.times]))
      (hs b (by simp [PlanStep.times]))
    exact ⟨err, bind_eq_error.2 (.inl herr)⟩
  | move l a b b' =>
    cases hbinding
    obtain ⟨err, herr⟩ := hull_of_unknown hl (hs a (by simp [PlanStep.times]))
      (hs b (by simp [PlanStep.times]))
    exact ⟨err, bind_eq_error.2 (.inl herr)⟩
  | unmapped view layer => cases hbinding

/-- A step with times inside of the calendar fails only for want of a binding or of a column. -/
theorem error_in_calendar (hd : d.Spaced) (hs : ∀ x ∈ s.times, w.Inner x)
    (h : s.operations (snapDirect d.lookup.ask) w = .error e) :
    (∃ view layer, e = .unmapped view layer) ∨
      ∃ l err, s.binding? = some l ∧ ¬ d.Known l.column ∧ e = .store err := by
  cases hbinding : s.binding? with
  | none =>
    cases s with
    | unmapped view layer =>
      cases h
      exact .inl ⟨view, layer, rfl⟩
    | cover l a b add => cases hbinding
    | move l a b b' => cases hbinding
  | some l =>
    by_cases hl : d.Known l.column
    · obtain ⟨ops, hops⟩ := operations_of_known hd hs hbinding hl
      cases hops.symm.trans h
    · obtain ⟨err, herr⟩ := operations_of_unknown hs hbinding hl
      cases herr.symm.trans h
      exact .inr ⟨l, err, rfl, hl, rfl⟩

/-! ### The steps for a view -/

theorem times_nextRecord {next : ViewRecord} (h : nextRecord w previous v = some next) :
    next.timeMain = v.time ∧
      (next.timeOriginal = v.time ∨ ∃ r ∈ previous, next.timeOriginal = r.timeOriginal) := by
  unfold nextRecord nextStatement at h
  cases previous with
  | none =>
    cases hd : v.disabled
    · rw [hd] at h
      cases h
      exact ⟨rfl, .inl rfl⟩
    · rw [hd] at h
      cases h
  | some r =>
    cases hd : v.disabled
    · rw [hd] at h
      cases h
      refine ⟨rfl, ?_⟩
      by_cases hredo : classifyUpdate w r v = .redo
      · exact .inl (if_pos hredo)
      · exact .inr ⟨r, rfl, if_neg hredo⟩
    · rw [hd] at h
      cases h

/-- The steps for a view ask for the hulls of its own time and of those of its former record. -/
theorem times_agenda {P : Instant → Prop}
    (hprevious : ∀ r ∈ previous, P r.timeOriginal ∧ P r.timeMain) (hv : P v.time)
    (h : s ∈ agenda reg w previous v) : ∀ x ∈ s.times, P x := by
  cases due_agenda h with
  | unmapped view layer => simp [PlanStep.times]
  | down hr _ _ _ =>
    obtain ⟨ho, hm⟩ := hprevious _ hr
    simp [PlanStep.times, ho, hm]
  | move hr _ _ _ _ =>
    obtain ⟨ho, hm⟩ := hprevious _ hr
    simp [PlanStep.times, ho, hm, hv]
  | up hnext _ _ _ =>
    obtain ⟨hm, ho | ⟨r, hr, ho⟩⟩ := times_nextRecord hnext
    · simp [PlanStep.times, ho, hm, hv]
    · simp [PlanStep.times, ho, hm, hv, (hprevious r hr).1]

theorem binding_of_agenda (h : s ∈ agenda reg w previous v)
    (hbinding : s.binding? = some l) : ∃ layer, l ∈ reg.layersFor layer := by
  cases due_agenda h with
  | unmapped view layer => cases hbinding
  | down _ _ _ hb =>
    cases hbinding
    exact ⟨_, hb⟩
  | move _ _ _ _ hb =>
    cases hbinding
    exact ⟨_, hb⟩
  | up _ _ _ hb =>
    cases hbinding
    exact ⟨_, hb⟩

/-- **Planning stays in the calendar.** Row times lie outside of leap seconds, distinct ones of a
table a tick apart, anywhere in the calendar, and the times of the view and of its former record lie
inside of it. No length of time is too long to be held, none of the steps for the view fails because
an instant leaves the calendar, and so neither does its plan. If the tables of the registry exist,
then there is a plan, or a layer stands for no table. -/
theorem plan_in_calendar (hd : d.Spaced)
    (hprevious : ∀ r ∈ previous, w.Inner r.timeOriginal ∧ w.Inner r.timeMain)
    (hv : w.Inner v.time) :
    (∀ a b : Instant, a.distance b ≤ Instant.longest) ∧ 2 * w.halfWidth ≤ Instant.longest ∧
      (∀ s ∈ agenda reg w previous v,
        s.operations (snapDirect d.lookup.ask) w ≠ .error .overflow) ∧
      plan d.lookup reg w previous v ≠ .error .overflow ∧
      ((∀ layer, ∀ b ∈ reg.layersFor layer, d.Known b.column) →
        (∃ p, plan d.lookup reg w previous v = .ok p) ∨
          ∃ view layer, plan d.lookup reg w previous v = .error (.unmapped view layer)) := by
  have herror : ∀ s ∈ agenda reg w previous v, ∀ e,
      s.operations (snapDirect d.lookup.ask) w = .error e →
      (∃ view layer, e = .unmapped view layer) ∨
        ∃ l err, s.binding? = some l ∧ ¬ d.Known l.column ∧ e = .store err :=
    fun s hs e h => error_in_calendar hd (times_agenda hprevious hv hs) h
  have hsteps : ∀ s ∈ agenda reg w previous v,
      s.operations (snapDirect d.lookup.ask) w ≠ .error .overflow := by
    intro s hs h
    rcases herror s hs _ h with ⟨_, _, he⟩ | ⟨_, _, _, _, he⟩
    · cases he
    · cases he
  refine ⟨Instant.distance_le_longest, ?_, hsteps, ?_, ?_⟩
  · have hinner := hv.nanos
    unfold Instant.firstSecond Instant.lastSecond at hinner
    unfold Instant.longest
    omega
  · intro h
    obtain ⟨front, s, back, hagenda, _, hs⟩ := mapM_eq_error.1 (plan_eq_error.1 h)
    exact hsteps s (by rw [hagenda]; simp) hs
  · intro hknown
    cases hplan : plan d.lookup reg w previous v with
    | ok p => exact .inl ⟨p, rfl⟩
    | error e =>
      obtain ⟨front, s, back, hagenda, _, hs⟩ := mapM_eq_error.1 (plan_eq_error.1 hplan)
      have hmem : s ∈ agenda reg w previous v := by
        rw [hagenda]
        simp
      rcases herror s hmem e hs with ⟨view, layer, rfl⟩ | ⟨l, err, hbinding, hunknown, _⟩
      · exact .inr ⟨view, layer, rfl⟩
      · obtain ⟨layer, hl⟩ := binding_of_agenda hmem hbinding
        exact absurd (hknown layer l hl) hunknown

/-- Minutes after a time shortly before the middle of the calendar. -/
def midway (minutes : UInt8) : Instant :=
  ⟨-62167178400 + 60 * minutes.toNat, 0, Instant.epoch.nano_lt, by omega,
    by have := minutes.toNat_lt; omega⟩

def early : ViewRecord := { drifting with timeOriginal := midway 0, timeMain := midway 0 }

def late : ParsedView := { drifted with time := midway 40 }

/-- Rows at the first and at the last moment of the calendar. -/
def brink : StoreData where
  tables := .ofList [("obs", ⟨"time", [⟨.first, 0⟩, ⟨.last, 0⟩]⟩)]

theorem spaced_brink : brink.Spaced := by
  intro name t ht
  obtain ⟨_, rfl⟩ := Dict.find?_singleton ht
  exact grid_of_list (by decide) (by decide)

theorem known_brink (layer : String) : ∀ b ∈ weather.layersFor layer, brink.Known b.column := by
  have hcolumns : ∀ b ∈ weather.bindings.values.flatten, b.column = ⟨"obs", "time"⟩ := by
    decide +kernel
  intro b hb
  obtain ⟨bs, hfind, hmem⟩ := Registry.mem_bindings hb
  rw [hcolumns b (List.mem_flatten.2 ⟨bs, Dict.mem_values hfind, hmem⟩)]
  exact ⟨_, rfl, rfl⟩

/-- A tick after the first moment. -/
def secondTick : Instant := ⟨Instant.firstSecond, 1000, by decide, by decide, by decide⟩

/-- One layer is given up, one moves and one is taken. All bounds of the hull were snapped to the
first moment; now the back is snapped to the last one, and the strip between them begins a tick after
the first. -/
def brinkOperations : List PinOperation :=
  [⟨⟨"rain", "sky", "rain", ⟨"obs", "time"⟩⟩, .between .first .first, false⟩,
   ⟨⟨"wind", "sky", "wind", ⟨"obs", "time"⟩⟩, .between secondTick .last, true⟩,
   ⟨⟨"hail", "sky", "hail", ⟨"obs", "time"⟩⟩, .between .first .last, true⟩]

/-- A view moves up to the middle of the calendar. -/
theorem plan_in_calendar_brink :
    (∀ s ∈ agenda weather hour (some early) late,
      s.operations (snapDirect brink.lookup.ask) hour ≠ .error .overflow) ∧
    ∃ p, plan brink.lookup weather hour (some early) late = .ok p ∧
      p.operations = brinkOperations := by
  have hearly : hour.Inner (midway 0) := ⟨by decide, by decide, by decide⟩
  have hlate : hour.Inner late.time := ⟨by decide, by decide, by decide⟩
  have hprevious : ∀ r ∈ some early, hour.Inner r.timeOriginal ∧ hour.Inner r.timeMain := by
    rintro r hr
    cases hr
    exact ⟨hearly, hearly⟩
  obtain ⟨_, _, hsteps, _, hplan⟩ := plan_in_calendar spaced_brink hprevious hlate
  refine ⟨hsteps, ?_⟩
  have hoperations :
      (plan brink.lookup weather hour (some early) late).toOption.map Plan.operations =
        some brinkOperations := by decide +kernel
  rcases hplan known_brink with ⟨p, hp⟩ | ⟨view, layer, hp⟩
  · rw [hp] at hoperations
    exact ⟨p, hp, Option.some.inj hoperations⟩
  · -- each layer of the view stands for a table
    rw [hp] at hoperations
    cases hoperations

end PinLedger
