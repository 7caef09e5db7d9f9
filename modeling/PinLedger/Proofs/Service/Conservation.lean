import PinLedger.Proofs.Layer.Registry
import PinLedger.Proofs.Run.Conservation
import PinLedger.Proofs.Service.Stages
import PinLedger.Proofs.Store.Locks

/-!
# PinLedger.Proofs.Service.Conservation

Pins are conserved over whole histories of a service. The feed may answer whatever it likes, and
runs may complete or fail: every row has as many pins as there are records, layer ids and bindings
that hold it.

* `Hold`, `ViewTable.holds` — the records, with their layer ids and the bindings of these
* `Event`, `Engine.after` — histories
* `Core.Step`, `Mapped.meet` — all that an event does to the pins: nothing, or a load is posted
* `Engine.Accounted` — the invariant
-/

namespace PinLedger

/-! ### Holds -/

/-- A record, one of its layer ids and one of the bindings of that. -/
structure Hold where
  record : ViewRecord
  layer : String
  binding : MappedLayer
deriving DecidableEq, Repr

/-- All holds of the records. -/
def ViewTable.holds (reg : Registry) (views : ViewTable) : List Hold :=
  views.toList.flatMap fun r =>
    r.layers.toList.flatMap fun layer => (reg.layersFor layer).map fun b => ⟨r, layer, b⟩

/-- The binding is to this table, and the snapped hull of the record holds `x`. -/
def Hold.reaches (w : Window) (name : String) (t : Table) (x : Instant) (h : Hold) : Bool :=
  h.binding.column.table == name &&
    (t.hull? w h.record.timeOriginal h.record.timeMain).any fun range => decide (x ∈ range)

variable {reg : Registry} {w : Window} {d : StoreData}

theorem mem_holds {views : ViewTable} {h : Hold} :
    h ∈ views.holds reg ↔
      h.record ∈ views.toList ∧ h.layer ∈ h.record.layers ∧ h.binding ∈ reg.layersFor h.layer := by
  unfold ViewTable.holds
  simp only [List.mem_flatMap, List.mem_map]
  constructor
  · rintro ⟨r, hr, layer, hlayer, b, hb, rfl⟩
    exact ⟨hr, hlayer, hb⟩
  · rintro ⟨hr, hlayer, hb⟩
    exact ⟨h.record, hr, h.layer, hlayer, h.binding, hb, rfl⟩

/-- Every hold is listed once. -/
theorem nodup_holds (hreg : reg.Distinct) (views : ViewTable) : (views.holds reg).Nodup := by
  refine List.pairwise_flatMap.2 ⟨?_, ?_⟩
  · intro r _
    refine List.pairwise_flatMap.2 ⟨?_, ?_⟩
    · intro layer _
      refine List.pairwise_map.2 ((hreg layer).imp ?_)
      intro b b' hne heq
      exact hne (Hold.mk.inj heq).2.2
    · refine r.layers.nodup.imp ?_
      intro layer layer' hne h hh h' hh' heq
      obtain ⟨b, _, rfl⟩ := List.mem_map.1 hh
      obtain ⟨b', _, rfl⟩ := List.mem_map.1 hh'
      exact hne (Hold.mk.inj heq).2.1
  · refine views.increasing.imp ?_
    intro r r' hlt h hh h' hh' heq
    obtain ⟨layer, _, hh⟩ := List.mem_flatMap.1 hh
    obtain ⟨b, _, rfl⟩ := List.mem_map.1 hh
    obtain ⟨layer', _, hh'⟩ := List.mem_flatMap.1 hh'
    obtain ⟨b', _, rfl⟩ := List.mem_map.1 hh'
    have hr : r = r' := (Hold.mk.inj heq).1
    subst hr
    omega

theorem covers_eq {c : Column} {t : Table} (ht : d.tables.find? c.table = some t)
    (hcolumn : t.column = c.name) (a b x : Instant) :
    d.lookup.covers w c a b x = (t.hull? w a b).any fun range => decide (x ∈ range) := by
  unfold RowLookup.covers
  rw [hull_of_table ht hcolumn]
  cases t.hull? w a b with
  | none => rfl
  | some range => rfl

/-- The binding is to this table, and what planning takes for the hull of the record holds `x`. -/
def Hold.pins (d : StoreData) (w : Window) (name : String) (x : Instant) (h : Hold) : Bool :=
  d.lookup.pinsBy w name x h.record.timeOriginal h.record.timeMain h.binding

/-- The records cover a time of a table once for each hold that pins it. -/
theorem coverage_eq_holds (d : StoreData) (reg : Registry) (w : Window) (name : String)
    (x : Instant) :
    d.coverage reg w name x = (d.views.holds reg).countP (Hold.pins d w name x) := by
  unfold StoreData.coverage ViewTable.total ViewTable.holds
  rw [List.countP_flatMap]
  congr 1
  refine List.map_congr_left ?_
  intro r _
  unfold ViewRecord.coverage coverage
  rw [Function.comp_apply, List.countP_flatMap]
  congr 1
  refine List.map_congr_left ?_
  intro layer _
  rw [Function.comp_apply, List.countP_map]
  rfl

/-- In a column that exists, a hold pins the times that it reaches. -/
theorem pins_eq_reaches {name : String} {t : Table} {h : Hold}
    (ht : d.tables.find? name = some t)
    (hcolumn : h.binding.column.table = name → t.column = h.binding.column.name) (x : Instant) :
    h.pins d w name x = h.reaches w name t x := by
  unfold Hold.pins RowLookup.pinsBy Hold.reaches
  by_cases hname : h.binding.column.table = name
  · rw [← hname] at ht
    rw [covers_eq ht (hcolumn hname)]
  · rw [beq_false_of_ne hname, Bool.false_and, Bool.false_and]

/-- A hold that pins a time has found its column. -/
theorem column_of_pins {name : String} {x : Instant} {h : Hold} (hp : h.pins d w name x = true) :
    h.binding.column.table = name ∧
      ∃ t, d.tables.find? name = some t ∧ t.column = h.binding.column.name := by
  unfold Hold.pins RowLookup.pinsBy RowLookup.covers at hp
  obtain ⟨htable, hcovers⟩ := Bool.and_eq_true_iff.1 hp
  cases hhull : d.lookup.hull w h.binding.column h.record.timeOriginal h.record.timeMain with
  | error err =>
    rw [hhull] at hcovers
    cases hcovers
  | ok range =>
    obtain ⟨t, ht, hcolumn, _⟩ := hull_eq_ok hhull
    rw [beq_iff_eq.1 htable] at ht
    exact ⟨beq_iff_eq.1 htable, t, ht, hcolumn⟩

theorem reaches_of_pins {name : String} {t : Table} {x : Instant} {h : Hold}
    (ht : d.tables.find? name = some t) (hp : h.pins d w name x = true) :
    h.reaches w name t x = true := by
  obtain ⟨_, t', ht', hcolumn⟩ := column_of_pins hp
  rw [ht] at ht'
  cases ht'
  rw [← pins_eq_reaches ht fun _ => hcolumn]
  exact hp

/-- The records cover a time of a table no more often than it is reached. -/
theorem coverage_le_countP {name : String} {t : Table} (ht : d.tables.find? name = some t)
    (x : Instant) :
    d.coverage reg w name x ≤ (d.views.holds reg).countP (Hold.reaches w name t x) := by
  rw [coverage_eq_holds]
  exact List.countP_mono_left fun h _ hp => reaches_of_pins ht hp

/-- If all columns of the records exist, the records cover a time of a table as often as it is
reached. -/
theorem coverage_eq_countP {name : String} {t : Table} (ht : d.tables.find? name = some t)
    (hknown : ∀ r ∈ d.views.toList, ∀ layer ∈ r.layers, ∀ b ∈ reg.layersFor layer,
      d.Known b.column) (x : Instant) :
    d.coverage reg w name x = (d.views.holds reg).countP (Hold.reaches w name t x) := by
  rw [coverage_eq_holds]
  refine List.countP_congr ?_
  intro h hh
  obtain ⟨hr, hlayer, hb⟩ := mem_holds.1 hh
  obtain ⟨t', ht', hcolumn⟩ := hknown h.record hr h.layer hlayer h.binding hb
  have heq : h.pins d w name x = h.reaches w name t x := by
    refine pins_eq_reaches ht ?_ x
    intro hname
    rw [hname, ht] at ht'
    cases ht'
    exact hcolumn
  rw [heq]

/-! ### Histories -/

/-- What may happen at a site with one service. -/
inductive Event where
  /-- From now on the feed answers with these views. -/
  | feed (f : MemoryFeed) (givesAll : Bool)
  | faults (f : Faults)
  | outages (o : Outages)
  /-- Somebody asks for a run. -/
  | start (kind : TaskKind)
  /-- The worker does a job. -/
  | work

namespace Engine

def meet (e : Engine) : Event → Engine
  | .feed f givesAll => { e with site := { e.site with feed := f, feedGivesAll := givesAll } }
  | .faults f => e.withStore { e.site.store with faults := f }
  | .outages o => { e with site := { e.site with outages := o } }
  | .start kind => (e.start kind).2
  | .work => e.work

/-- The engine after a history. -/
def after (e : Engine) (events : List Event) : Engine := events.foldl meet e

end Engine

/-! ### What admission and the end of a job leave alone -/

/-- What the pins of a site depend on. -/
structure Core where
  settings : RunSettings
  catalog : Catalog
  registry : Registry
  data : StoreData

namespace Engine

def core (e : Engine) : Core :=
  ⟨e.service.settings, e.site.catalog, e.service.registry, e.site.store.data⟩

@[simp] theorem core_warn (e : Engine) (ws : List Warning) : (e.warn ws).core = e.core := rfl

@[simp] theorem core_dropSession (e : Engine) (session : SessionId) :
    (e.dropSession session).core = e.core := rfl

@[simp] theorem core_conclude (e : Engine) (task : TaskId) (r : Except RunError RunSummary) :
    (e.conclude task r).core = e.core := by
  cases r with
  | error err => rfl
  | ok sum => rfl

theorem core_withStore {e : Engine} {s : Store} (h : s.data = e.site.store.data) :
    (e.withStore s).core = e.core := by
  unfold core withStore
  rw [h]

@[simp] theorem core_takeLock (e : Engine) (session : SessionId) :
    (e.takeLock session).2.core = e.core := by
  unfold takeLock
  cases e.site.outages.onLock with
  | some t => rfl
  | none =>
    have hlock := Store.data_tryLock e.site.store session e.service.settings.lockKey
    rcases hl : e.site.store.tryLock session e.service.settings.lockKey with ⟨taken, store⟩
    rw [hl] at hlock
    cases taken
    · exact core_withStore hlock
    · exact core_withStore hlock

@[simp] theorem core_acquire (e : Engine) : e.acquire.2.core = e.core := by
  unfold acquire
  cases e.site.outages.onOpen with
  | some t => rfl
  | none =>
    unfold Store.openSession
    cases e.site.store.faults.unreachable
    · exact core_takeLock _ _
    · rfl

@[simp] theorem core_submit (e : Engine) (kind : TaskKind) (session : SessionId) :
    (e.submit kind session).2.core = e.core := by
  unfold submit
  cases hs : e.service.stopped
  · simp only [hs, Bool.false_eq_true, if_false]
    rfl
  · simp only [hs, if_true]
    rfl

@[simp] theorem core_start (e : Engine) (kind : TaskKind) : (e.start kind).2.core = e.core := by
  unfold start
  by_cases hr : e.service.tracker.isRunning = true
  · rw [if_pos hr]
  · rw [if_neg hr]
    have hacquire := core_acquire e
    rcases ha : e.acquire with ⟨r, e'⟩
    rw [ha] at hacquire
    cases r with
    | error refusal => exact hacquire
    | ok session => exact (core_submit e' kind session).trans hacquire

@[simp] theorem core_release (e : Engine) (session : SessionId) :
    (e.release session).core = e.core := by
  unfold release
  rw [core_dropSession]
  rcases e.site.outages.onUnlock with _ | err | text
  · by_cases hr : e.site.outages.unlock = some .refusal
    · simp only [hr, if_true, core_warn]
    · simp only [hr, if_false, core_warn]
      exact core_withStore (Store.data_unlock _ _ _)
  · rfl
  · rfl

@[simp] theorem core_stop (e : Engine) (session : SessionId) : (e.stop session).core = e.core := by
  have hdrop : ∀ (jobs : List Job) (e : Engine),
      (jobs.foldl (fun e job => e.dropSession job.session) e).core = e.core := by
    intro jobs
    induction jobs with
    | nil => exact fun _ => rfl
    | cons job jobs ih => exact fun e => ih (e.dropSession job.session)
  exact hdrop _ _

/-- A job does what its run does. -/
theorem core_runJob (e : Engine) (job : Job) :
    (e.runJob job).core = (e.perform job.kind).2.core := by
  unfold runJob
  rcases e.perform job.kind with ⟨r, e'⟩
  rcases r with err | sum
  · rcases err with err | err | err | _
    · simp
    · simp
    · cases err with
      | mappingFile path => simp
      | lookup layer text => simp
      | breakdown text => simp
    · simp
  · simp

end Engine

/-! ### What an event does -/

/-- The data stay, or a load is posted that was gathered with the registry of the service. -/
inductive Core.Step : Core → Core → Prop
  | still (c : Core) : Step c c
  | posted {c : Core} {l : Load} {sum : RunSummary} {d : StoreData}
      (hregistry : l.registry = c.registry)
      (hpost : l.post c.settings.window c.data = .ok (sum, d)) : Step c { c with data := d }

theorem Core.Step.frame {c c' : Core} (h : c.Step c') : c' = { c with data := c'.data } := by
  cases h with
  | still => rfl
  | posted _ _ => rfl

/-- What every load keeps that is posted with the registry, an event keeps. -/
theorem Core.Step.keeps {P : Registry → Window → StoreData → Prop}
    (hP : ∀ {l : Load} {w d sum d'}, P l.registry w d → l.post w d = .ok (sum, d') →
      P l.registry w d') {c c' : Core} (h : c.Step c')
    (hc : P c.registry c.settings.window c.data) :
    P c'.registry c'.settings.window c'.data := by
  cases h with
  | still => exact hc
  | posted hregistry hpost =>
    rw [← hregistry] at hc
    have hd := hP hc hpost
    rw [hregistry] at hd
    exact hd

namespace Load

variable {l : Load} {g : Ledger} {sum : RunSummary} {d' : StoreData}

theorem skeleton_start (h : l.start d = .ok g) : g.data.skeleton = d.skeleton := by
  unfold start at h
  cases hfresh : l.fresh
  · rw [hfresh] at h
    cases h
    rfl
  · rw [hfresh] at h
    exact Ledger.skeleton_wipe h

theorem skeleton_post (h : l.post w d = .ok (sum, d')) : d'.skeleton = d.skeleton := by
  rw [post_eq] at h
  obtain ⟨g, hstart, hrun⟩ := bind_eq_ok.1 h
  exact (Ledger.skeleton_run hrun).trans (skeleton_start hstart)

theorem tallied_start {R : Int → Nat → Prop} (hR : Comparison R)
    (hd : d.Tallied R (fun _ _ => 0) l.registry w) (h : l.start d = .ok g) :
    g.data.Tallied R (fun _ _ => 0) l.registry w := by
  unfold start at h
  cases hfresh : l.fresh
  · rw [hfresh] at h
    cases h
    exact hd
  · rw [hfresh] at h
    have hcounted : (⟨d, 0, 0⟩ : Ledger).data.Counted R (d.coverage l.registry w) := hd
    have hwiped := hcounted.wipe (w := w) hR h
    rw [StoreData.coverage_elsewhere] at hwiped
    exact hwiped

/-- Posting a load keeps the counts in their relation to the records. -/
theorem tallied_post {R : Int → Nat → Prop} (hR : Comparison R) (hspaced : d.Spaced)
    (hd : d.Tallied R (fun _ _ => 0) l.registry w) (h : l.post w d = .ok (sum, d')) :
    d'.Tallied R (fun _ _ => 0) l.registry w := by
  rw [post_eq] at h
  obtain ⟨g, hstart, hrun⟩ := bind_eq_ok.1 h
  exact (tallied_start hR hd hstart).run hR (hspaced.of_skeleton (skeleton_start hstart)) hrun

theorem accounted_start (hd : d.Accounted l.registry w) (h : l.start d = .ok g) :
    g.data.Accounted l.registry w := by
  unfold start at h
  cases hfresh : l.fresh
  · rw [hfresh] at h
    cases h
    exact hd
  · rw [hfresh] at h
    have hledger : (⟨d, 0, 0⟩ : Ledger).data.Accounted l.registry w := hd
    exact hledger.wipe h

/-- Posting a load keeps the pins accounted for. -/
theorem accounted_post (hspaced : d.Spaced) (hd : d.Accounted l.registry w)
    (h : l.post w d = .ok (sum, d')) : d'.Accounted l.registry w := by
  rw [post_eq] at h
  obtain ⟨g, hstart, hrun⟩ := bind_eq_ok.1 h
  exact (accounted_start hd hstart).run (hspaced.of_skeleton (skeleton_start hstart)) hrun

end Load

namespace Engine

/-- The mapping is fixed, and the registry is read from it. -/
structure Mapped (es : List MappingEntry) (e : Engine) : Prop where
  mapping : e.service.settings.mapping = .entries es
  registry : e.service.registry = e.site.catalog.registry es

variable {es : List MappingEntry} {e e' : Engine}

theorem Mapped.of_frame (h : e.Mapped es) (hc : e'.core = { e.core with data := e'.core.data }) :
    e'.Mapped es := by
  obtain ⟨hsettings, hcatalog, hregistry, _⟩ := Core.mk.inj hc
  refine ⟨?_, ?_⟩
  · rw [hsettings]
    exact h.mapping
  · rw [hregistry, hcatalog]
    exact h.registry

/-- What has been read when the feed is asked is read from the same mapping. -/
theorem Mapped.begin {kind : TaskKind} {r : Except RunError Request} (h : e.Mapped es)
    (hb : e.begin kind = (r, e')) : e'.core = e.core := by
  obtain ⟨hsite, registry, hservice, hregistry⟩ := begin_frame hb
  unfold core
  rw [hsite, hservice]
  rcases hregistry with rfl | hread
  · rfl
  · rw [h.mapping] at hread
    rw [registry_of_readRegistry hread, ← h.registry]

theorem Mapped.registry_of_gather {kind : TaskKind} {r : Request} {l : Load}
    (h : e.Mapped es) (hb : e.begin kind = (.ok r, e')) (hg : e'.gather r = .ok l) :
    l.registry = e.service.registry := by
  have hr := of_begin hb
  obtain ⟨page, _, rfl⟩ := gather_eq_ok hg
  cases r with
  | all registry =>
    obtain ⟨_, hread, _⟩ := hr
    rw [h.mapping] at hread
    exact (registry_of_readRegistry hread).trans h.registry.symm
  | since mark =>
    obtain ⟨_, _, rfl⟩ := hr
    rfl

/-- A load that is committed is posted; one that is not changes nothing. -/
theorem step_of_commit {l : Load} {r : Except RunError RunSummary}
    (hl : l.registry = e.service.registry) (hc : e.commit l = (r, e')) :
    e.core.Step e'.core := by
  obtain ⟨hservice, hsite, _, _⟩ := commit_frame hc
  have hcore : e'.core = { e.core with data := e'.site.store.data } := by
    unfold core
    rw [hservice]
    rw [hsite]
  rw [hcore]
  cases r with
  | error err =>
    rw [data_of_commit_error hc]
    exact .still e.core
  | ok sum => exact .posted hl (of_commit hc)

/-- A run posts its load, or changes nothing. -/
theorem Mapped.perform {kind : TaskKind} {r : Except RunError RunSummary} (h : e.Mapped es)
    (hp : e.perform kind = (r, e')) : e.core.Step e'.core := by
  rw [perform_eq_stages] at hp
  rcases hb : e.begin kind with ⟨request, e₁⟩
  have hcore : e₁.core = e.core := h.begin hb
  rw [hb] at hp
  cases request with
  | error err =>
    cases hp
    rw [hcore]
    exact .still e.core
  | ok request =>
    cases hg : e₁.gather request with
    | error err =>
      simp only [hg] at hp
      cases hp
      rw [hcore]
      exact .still e.core
    | ok l =>
      simp only [hg] at hp
      have hregistry : e₁.service.registry = e.service.registry := (Core.mk.inj hcore).2.2.1
      have hl := (h.registry_of_gather hb hg).trans hregistry.symm
      rw [← hcore]
      exact step_of_commit hl hp

theorem Mapped.runJob (h : e.Mapped es) (job : Job) : e.core.Step (e.runJob job).core := by
  rw [core_runJob]
  exact h.perform rfl

/-- Whatever happens, the data stay, or a load is posted. -/
theorem Mapped.meet (h : e.Mapped es) (event : Event) : e.core.Step (e.meet event).core := by
  cases event with
  | feed f givesAll => exact .still e.core
  | faults f => exact .still e.core
  | outages o => exact .still e.core
  | start kind =>
    show e.core.Step (e.start kind).2.core
    rw [core_start]
    exact .still e.core
  | work =>
    show e.core.Step e.work.core
    unfold Engine.work
    cases e.service.jobs with
    | nil => exact .still e.core
    | cons job rest =>
      have htaken : ({ e with service := { e.service with jobs := rest } } : Engine).Mapped es :=
        h.of_frame rfl
      exact htaken.runJob job

/-! ### The invariant -/

/-- The registry is that of the mapping, and the pins are accounted for. -/
structure Accounted (es : List MappingEntry) (e : Engine) : Prop extends e.Mapped es where
  spaced : e.site.store.data.Spaced
  pins : e.site.store.data.Accounted e.service.registry e.service.settings.window

theorem Accounted.of_step (h : e.Accounted es) (hs : e.core.Step e'.core) : e'.Accounted es := by
  obtain ⟨hspaced, hpins⟩ := hs.keeps (P := fun reg w d => d.Spaced ∧ d.Accounted reg w)
    (fun hd hpost => ⟨hd.1.of_skeleton (Load.skeleton_post hpost),
      Load.accounted_post hd.1 hd.2 hpost⟩) ⟨h.spaced, h.pins⟩
  exact ⟨h.of_frame hs.frame, hspaced, hpins⟩

/-- Whatever happens, the pins stay accounted for, and nothing but the data changes. -/
theorem Accounted.after (h : e.Accounted es) (events : List Event) :
    (e.after events).Accounted es ∧
      (e.after events).core = { e.core with data := (e.after events).site.store.data } := by
  induction events generalizing e with
  | nil => exact ⟨h, rfl⟩
  | cons event events ih =>
    have hstep := h.meet event
    obtain ⟨h', hcore'⟩ := ih (h.of_step hstep)
    refine ⟨h', ?_⟩
    show ((e.meet event).after events).core = _
    rw [hcore', hstep.frame]
    rfl

/-! ### Conservation -/

theorem of_create {settings : RunSettings} {site : Site} {e : Engine} {ws : List Warning}
    (h : Engine.create settings site = (.ok e, ws)) :
    ∃ registry, (site.readRegistry settings.mapping).1 = .ok registry ∧
      e = { service := { settings, registry }, site } := by
  unfold Engine.create at h
  rcases hr : site.readRegistry settings.mapping with ⟨read, ws'⟩
  rw [hr] at h
  cases read with
  | error err => cases h
  | ok registry =>
    cases h
    exact ⟨registry, rfl, rfl⟩

/-- A service at a site whose rows nothing pins, for no records are there. -/
theorem accounted_of_create {settings : RunSettings} {site : Site} {es : List MappingEntry}
    {e : Engine} {ws : List Warning} (hmapping : settings.mapping = .entries es)
    (hspaced : site.store.data.Spaced)
    (hpins : ∀ name t, site.store.data.tables.find? name = some t → ∀ row ∈ t.rows, row.pin = 0)
    (hviews : site.store.data.views = .empty)
    (hcreate : Engine.create settings site = (.ok e, ws)) : e.Accounted es := by
  obtain ⟨registry, hread, rfl⟩ := of_create hcreate
  rw [hmapping] at hread
  refine ⟨⟨hmapping, registry_of_readRegistry hread⟩, hspaced, ?_, ?_⟩
  · intro name t ht row hrow
    rw [hpins name t ht row hrow]
    unfold StoreData.coverage
    rw [hviews]
    rfl
  · intro r hr
    rw [hviews] at hr
    cases hr

/-- **Conservation of pins.** A service starts at a site without pins and records, whose row times
lie on a grid. After any history of feeds, told failures, requests and runs, the pins of a row are
the holds that reach it, each of which is counted once. -/
theorem pins_conserved {settings : RunSettings} {site : Site} {es : List MappingEntry}
    {e : Engine} {ws : List Warning} (hmapping : settings.mapping = .entries es)
    (hspaced : site.store.data.Spaced)
    (hpins : ∀ name t, site.store.data.tables.find? name = some t → ∀ row ∈ t.rows, row.pin = 0)
    (hviews : site.store.data.views = .empty)
    (hcreate : Engine.create settings site = (.ok e, ws)) (history : List Event)
    {name : String} {t : Table}
    (ht : (e.after history).site.store.data.tables.find? name = some t) :
    ((e.after history).site.store.data.views.holds e.service.registry).Nodup ∧
      ∀ row ∈ t.rows,
        row.pin = ((e.after history).site.store.data.views.holds e.service.registry).countP
          (Hold.reaches settings.window name t row.time) := by
  have hsettings : e.service.settings = settings := by
    obtain ⟨registry, _, rfl⟩ := of_create hcreate
    rfl
  obtain ⟨h, hcore⟩ := (accounted_of_create hmapping hspaced hpins hviews hcreate).after history
  have hregistry : (e.after history).service.registry = e.service.registry :=
    (Core.mk.inj hcore).2.2.1
  have hwindow : (e.after history).service.settings.window = settings.window := by
    rw [(Core.mk.inj hcore).1, ← hsettings]
    rfl
  constructor
  · refine nodup_holds ?_ _
    rw [← hregistry, h.registry]
    exact Catalog.nodup_registry _ es
  · intro row hrow
    rw [h.pins.pins name t ht row hrow, coverage_eq_countP ht h.pins.known, hregistry, hwindow]

end Engine

/-! A site with one table, of two rows three hours apart, and a feed with one view. -/

def afternoon : Instant := ⟨1742482800, 0, Instant.epoch.nano_lt, by decide, by decide⟩

def evening : Instant := ⟨1742493600, 0, Instant.epoch.nano_lt, by decide, by decide⟩

def observatory : Site where
  store := { data := {
    tables := .ofList [("obs", ⟨"time", [⟨afternoon, 0⟩, ⟨evening, 0⟩]⟩)] } }
  catalog := .ofEntries [⟨"sky", "stars", ⟨"obs", "time"⟩⟩]

def hourly : RunSettings where
  window := .ofMinutes 60
  batchSize := 4
  lockKey := 7
  mapping := .entries [⟨"stars", "sky", "stars"⟩]

def stargazer : RawView where
  id := 1
  disabled := false
  preference :=
    "\x7b\"layers\":[\x7b\"id\":\"stars\"\x7d]," ++
    "\"time\":\x7b\"mode\":\"absolute\",\"value\":\"2025-03-20T15:00:00Z\"\x7d\x7d"
  lastUpdate := some afternoon

/-- The service of that site when it has been created. -/
def watcher : Engine where
  service := {
    settings := hourly
    registry := observatory.catalog.registry [⟨"stars", "sky", "stars"⟩] }
  site := observatory

def firstNight : List Event :=
  [.feed { views := [stargazer, stargazer] } false, .start .reset, .work]

theorem table_observatory {name : String} {t : Table}
    (h : observatory.store.data.tables.find? name = some t) :
    name = "obs" ∧ t = ⟨"time", [⟨afternoon, 0⟩, ⟨evening, 0⟩]⟩ :=
  Dict.find?_singleton h

theorem spaced_observatory : observatory.store.data.Spaced := by
  intro name t ht
  obtain ⟨_, rfl⟩ := table_observatory ht
  exact grid_of_list (by decide) (by decide)

theorem unpinned_observatory {name : String} {t : Table}
    (h : observatory.store.data.tables.find? name = some t) : ∀ row ∈ t.rows, row.pin = 0 := by
  obtain ⟨_, rfl⟩ := table_observatory h
  decide

/-- The view is listed twice and holds the afternoon once. -/
theorem pins_conserved_firstNight :
    (1 : Int) = ((watcher.after firstNight).site.store.data.views.holds
        watcher.service.registry).countP
      (Hold.reaches hourly.window "obs" ⟨"time", [⟨afternoon, 1⟩, ⟨evening, 0⟩]⟩ afternoon) := by
  have hcreate : Engine.create hourly observatory = (.ok watcher, []) := rfl
  have htable : (watcher.after firstNight).site.store.data.tables.find? "obs" =
      some ⟨"time", [⟨afternoon, 1⟩, ⟨evening, 0⟩]⟩ := by decide +kernel
  have hmapping : hourly.mapping = .entries [⟨"stars", "sky", "stars"⟩] := rfl
  have h := Engine.pins_conserved hmapping spaced_observatory
    (fun _ _ => unpinned_observatory) rfl hcreate firstNight htable
  exact h.2 ⟨afternoon, 1⟩ List.mem_cons_self

end PinLedger
