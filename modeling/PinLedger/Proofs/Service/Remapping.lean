import PinLedger.Proofs.Run.Scratch
import PinLedger.Proofs.Service.Arrivals
import PinLedger.Proofs.Service.Reset

/-!
# PinLedger.Proofs.Service.Remapping

Resets in histories in which the mapping is edited. A reset gives the tables of the registry that it
reads the pins of the records that it leaves behind. The tables that it clears are those of this
registry alone, and so a table that only former registries have named keeps the pins that it has.

* `Change`, `Engine.across` — histories in which the mapping is edited
* `Engine.Completes` — the next run of the worker, if it completes
* `Engine.Named`, `untouched_across` — a table that no registry has named is as it was
* `reset_rebuilds` — the pins after a reset
* `pins_outlive_mapping` — a table that is no longer named, after a reset
-/

namespace PinLedger

/-- What may happen to a service whose mapping is edited. -/
inductive Change where
  | event (x : Event)
  /-- From now on the mapping files and the catalog are these. -/
  | edit (files : Dict String String) (catalog : Catalog)

namespace Engine

def change (e : Engine) : Change → Engine
  | .event x => e.meet x
  | .edit files catalog => { e with site := { e.site with files, catalog } }

/-- The engine after a history. -/
def across (e : Engine) (history : List Change) : Engine := history.foldl change e

/-- The worker has taken the job that has waited longest. -/
def dequeue (e : Engine) : Engine :=
  { e with service := { e.service with jobs := e.service.jobs.tail } }

/-- The job that has waited longest is of this kind. If the worker takes it now, it completes. -/
def Completes (e : Engine) (kind : TaskKind) : Prop :=
  (∃ job rest, e.service.jobs = job :: rest ∧ job.kind = kind) ∧
    ∃ sum, (e.dequeue.perform kind).1 = .ok sum

/-- Some registry that has been in force on the way names the table. -/
def Named (e : Engine) (history : List Change) (name : String) : Prop :=
  ∃ before, before <+: history ∧ name ∈ (e.across before).service.registry.tables

variable {e e' : Engine} {kind : TaskKind} {name : String}

theorem work_of_cons {job : Job} {rest : List Job} (h : e.service.jobs = job :: rest) :
    e.work = e.dequeue.runJob job := by
  unfold work dequeue
  rw [h]
  rfl

/-- A worker that takes a job does what the run of that job does. -/
theorem core_work_of_cons {job : Job} {rest : List Job} {r : Except RunError RunSummary}
    (h : e.service.jobs = job :: rest) (hperform : e.dequeue.perform job.kind = (r, e')) :
    e.work.core = e'.core := by
  rw [work_of_cons h, core_runJob, hperform]

/-- The worker does what a run does, or nothing if no job waits. -/
theorem core_work (e : Engine) :
    e.work = e ∨ ∃ kind r e', e.dequeue.perform kind = (r, e') ∧ e.work.core = e'.core := by
  cases h : e.service.jobs with
  | nil =>
    unfold work
    rw [h]
    exact .inl rfl
  | cons job rest =>
    exact .inr ⟨job.kind, _, _, rfl, core_work_of_cons h rfl⟩

theorem core_of_completes (h : e.Completes kind) :
    ∃ sum e', e.dequeue.perform kind = (.ok sum, e') ∧ e.work.core = e'.core := by
  obtain ⟨⟨job, rest, hjobs, rfl⟩, sum, hsum⟩ := h
  have hperform : e.dequeue.perform job.kind = (.ok sum, (e.dequeue.perform job.kind).2) :=
    Prod.ext hsum rfl
  exact ⟨sum, _, hperform, core_work_of_cons hjobs hperform⟩

/-! ### What a history leaves alone -/

/-- A run leaves the tables alone that its registry does not name. -/
theorem untouched_perform {r : Except RunError RunSummary} (h : e.perform kind = (r, e'))
    (hname : name ∉ e'.service.registry.tables) :
    e'.site.store.data.tables.find? name = e.site.store.data.tables.find? name := by
  cases r with
  | error err => rw [data_of_perform_error h]
  | ok sum =>
    obtain ⟨l, _, _, hregistry, hpost⟩ := posted_of_perform h
    rw [← hregistry] at hname
    unfold Load.post at hpost
    cases hfresh : l.fresh
    · rw [hfresh] at hpost
      exact untouched_run hname hpost
    · rw [hfresh] at hpost
      exact untouched_rebuild hname hpost

theorem untouched_change (x : Change) (hname : name ∉ (e.change x).service.registry.tables) :
    (e.change x).site.store.data.tables.find? name = e.site.store.data.tables.find? name := by
  cases x with
  | edit files catalog => rfl
  | event x =>
    cases x with
    | feed f givesAll => rfl
    | faults f => rfl
    | outages o => rfl
    | start kind =>
      have hdata := (Core.mk.inj (core_start e kind)).2.2.2
      show (e.start kind).2.site.store.data.tables.find? name = _
      rw [hdata]
    | work =>
      change name ∉ e.work.service.registry.tables at hname
      show e.work.site.store.data.tables.find? name = _
      rcases core_work e with hidle | ⟨kind, r, e', hperform, hcore⟩
      · rw [hidle]
      · obtain ⟨_, _, hregistry, hdata⟩ := Core.mk.inj hcore
        rw [hregistry] at hname
        have hsame := untouched_perform hperform hname
        rw [hdata]
        exact hsame

/-- A table that no registry has named is as it was. -/
theorem untouched_across {history : List Change} (hname : ¬ e.Named history name) :
    (e.across history).site.store.data.tables.find? name =
      e.site.store.data.tables.find? name := by
  induction history generalizing e with
  | nil => rfl
  | cons x history ih =>
    have hrest : ¬ (e.change x).Named history name := by
      rintro ⟨before, hbefore, hmem⟩
      exact hname ⟨x :: before, List.cons_prefix_cons.2 ⟨rfl, hbefore⟩, hmem⟩
    have hfirst : name ∉ (e.change x).service.registry.tables := fun hmem =>
      hname ⟨[x], List.cons_prefix_cons.2 ⟨rfl, List.nil_prefix⟩, hmem⟩
    show ((e.change x).across history).site.store.data.tables.find? name = _
    rw [ih hrest, untouched_change x hfirst]

theorem settings_change (e : Engine) (x : Change) :
    (e.change x).service.settings = e.service.settings := by
  cases x with
  | edit files catalog => rfl
  | event x =>
    cases x with
    | feed f givesAll => rfl
    | faults f => rfl
    | outages o => rfl
    | start kind => exact (Core.mk.inj (core_start e kind)).1
    | work =>
      show e.work.service.settings = _
      rcases core_work e with hidle | ⟨kind, r, e', hperform, hcore⟩
      · rw [hidle]
      · rw [(Core.mk.inj hcore).1]
        exact (data_of_perform hperform).1

theorem settings_across (e : Engine) (history : List Change) :
    (e.across history).service.settings = e.service.settings := by
  induction history generalizing e with
  | nil => rfl
  | cons x history ih =>
    show ((e.change x).across history).service.settings = _
    rw [ih, settings_change]

/-! ### What a reset rebuilds -/

/-- **A reset rebuilds the pins of the tables that it knows.** A service starts at a site without
pins, and its mapping may be edited at any time. A reset completes over a page in which no id comes
twice, or with row times on a grid. In every table of the registry that it has read, and in every
table that no registry has ever named, each row then has as many pins as there are holds that reach
it, each of which is counted once. A table that the registry does not name is reached by no hold,
and is as it was before the reset. -/
theorem reset_rebuilds {settings : RunSettings} {site : Site} {ws : List Warning}
    (hpins : ∀ name t, site.store.data.tables.find? name = some t → ∀ row ∈ t.rows, row.pin = 0)
    (hcreate : Engine.create settings site = (.ok e, ws)) (history : List Change)
    {e₁ e₂ : Engine} (hbefore : e.across history = e₁) (hreset : e₁.Completes .reset)
    (hpage : (∀ views latest, e₁.site.fetch none = .ok (views, latest) →
      (views.map (·.id)).Nodup) ∨ e₁.site.store.data.Spaced)
    (hafter : e₁.work = e₂) {t : Table} (ht : e₂.site.store.data.tables.find? name = some t) :
    (e₂.site.store.data.views.holds e₂.service.registry).Nodup ∧
      (name ∈ e₂.service.registry.tables ∨ ¬ e.Named history name → ∀ row ∈ t.rows,
        row.pin = (e₂.site.store.data.views.holds e₂.service.registry).countP
          (Hold.reaches settings.window name t row.time)) ∧
      (name ∉ e₂.service.registry.tables →
        e₁.site.store.data.tables.find? name = some t ∧
          ∀ x, (e₂.site.store.data.views.holds e₂.service.registry).countP
            (Hold.reaches settings.window name t x) = 0) := by
  obtain ⟨sum, e', hperform, hcore⟩ := core_of_completes hreset
  rw [hafter] at hcore
  obtain ⟨_, _, hregistry, hdata⟩ := Core.mk.inj hcore
  obtain ⟨registry, views, latest, hread, hfetch, _, hrun, hservice, _⟩ := of_reset hperform
  have hsettings : e₁.service.settings = settings := by
    obtain ⟨registry₀, _, rfl⟩ := of_create hcreate
    rw [← hbefore, settings_across]
  have hrun₂ : e₁.site.store.data.rebuild registry settings.window views latest =
      .ok (sum, e₂.site.store.data) := by
    rw [hdata, ← hsettings]
    exact hrun
  have hread₂ : e₂.service.registry = registry := by rw [hregistry, hservice]
  rw [hread₂]
  have hcount : ∀ x, e₂.site.store.data.coverage registry settings.window name x =
      (e₂.site.store.data.views.holds registry).countP (Hold.reaches settings.window name t x) :=
    fun x => coverage_eq_countP ht (placed_of_rebuild hrun₂) x
  refine ⟨nodup_holds (distinct_of_readRegistry hread) _, ?_, ?_⟩
  · intro hnamed row hrow
    rw [← hcount]
    by_cases hname : name ∈ registry.tables
    · have hids : (views.map (·.id)).Nodup ∨ e₁.site.store.data.Spaced :=
        hpage.imp_left fun h => h views latest hfetch
      exact pinned_of_rebuild hids hrun₂ hname ht row hrow
    · -- the table is still the one of the beginning
      have hsame := untouched_across (hnamed.resolve_left hname)
      rw [hbefore, ← untouched_rebuild hname hrun₂, ht] at hsame
      have hstart : e.site = site := by
        obtain ⟨registry₀, _, rfl⟩ := of_create hcreate
        rfl
      rw [hstart] at hsame
      rw [hpins name t hsame.symm row hrow, StoreData.coverage_eq_zero hname]
      rfl
  · intro hname
    refine ⟨(untouched_rebuild hname hrun₂).symm.trans ht, ?_⟩
    intro x
    rw [← hcount, StoreData.coverage_eq_zero hname]

end Engine

/-! A site with two tables and a mapping file, and a view of half past three. -/

def annex : Site where
  store := { data := {
    tables := .ofList [
      ("obs", ⟨"time", [⟨pastThree 10, 0⟩]⟩),
      ("lab", ⟨"time", [⟨pastThree 20, 0⟩]⟩)] } }
  catalog := .ofEntries [⟨"sky", "stars", ⟨"obs", "time"⟩⟩, ⟨"sky", "comets", ⟨"lab", "time"⟩⟩]
  files := .ofList [("layers.csv", "stars,sky,stars")]

def charted : RunSettings := { brief with mapping := .file "layers.csv" }

/-- The service of that site when it has been created. -/
def keeper : Engine where
  service := {
    settings := charted
    registry := annex.catalog.registry [⟨"stars", "sky", "stars"⟩] }
  site := annex

theorem create_keeper : Engine.create charted annex = (.ok keeper, []) := by
  have hentries : (annex.readMapping charted.mapping).1.toOption =
      some [⟨"stars", "sky", "stars"⟩] := by decide +kernel
  have hsilent : (annex.readMapping charted.mapping).2 = [] := by decide +kernel
  have hread := eq_ok_of_toOption hentries
  rw [hsilent] at hread
  unfold Engine.create Site.readRegistry
  rw [hread]
  rfl

/-- The view is pinned, the mapping file is edited, and somebody asks for a reset. -/
def remapped (text : String) : List Change :=
  [.event (.feed { views := [guest false 40] } false), .event (.start .reset), .event .work,
   .edit (.ofList [("layers.csv", text)]) annex.catalog, .event (.start .reset)]

theorem unpinned_annex {name : String} {t : Table}
    (h : annex.store.data.tables.find? name = some t) : ∀ row ∈ t.rows, row.pin = 0 := by
  have hall : annex.store.data.tables.values.all fun t => t.rows.all fun r => r.pin = 0 := by
    decide
  intro row hrow
  simpa using List.all_eq_true.1 (List.all_eq_true.1 hall t (Dict.mem_values h)) row hrow

/-- The layer id stands for both tables after the edit. -/
def joined : Engine := keeper.across (remapped "stars,sky,stars\nstars,sky,comets")

theorem reset_rebuilds_joined :
    joined.work.site.store.data.tables.find? "lab" = some ⟨"time", [⟨pastThree 20, 1⟩]⟩ ∧
      (1 : Int) = (joined.work.site.store.data.views.holds joined.work.service.registry).countP
        (Hold.reaches brief.window "lab" ⟨"time", [⟨pastThree 20, 1⟩]⟩ (pastThree 20)) := by
  have hfacts : joined.service.jobs = [⟨.issued 2, .reset, 1⟩] ∧
      (joined.dequeue.perform .reset).1.toOption.isSome = true ∧
      (joined.site.fetch none).toOption.map (fun page => page.1.map (·.id)) = some [1] ∧
      joined.work.site.store.data.tables.find? "lab" = some ⟨"time", [⟨pastThree 20, 1⟩]⟩ ∧
      "lab" ∈ joined.work.service.registry.tables := by decide +kernel
  obtain ⟨hjobs, hsum, hids, hlab, hnamed⟩ := hfacts
  obtain ⟨sum, hsum⟩ := Option.isSome_iff_exists.1 hsum
  have hpage : ∀ views latest, joined.site.fetch none = .ok (views, latest) →
      (views.map (·.id)).Nodup := by
    intro views latest hfetch
    rw [hfetch] at hids
    have hid : views.map (·.id) = [1] := Option.some.inj hids
    rw [hid]
    decide
  obtain ⟨_, hcount, _⟩ := Engine.reset_rebuilds (fun _ _ => unpinned_annex) create_keeper _ rfl
    ⟨⟨_, _, hjobs, rfl⟩, sum, ok_of_toOption hsum⟩ (.inl hpage) rfl hlab
  exact ⟨hlab, hcount (.inl hnamed) ⟨pastThree 20, 1⟩ List.mem_cons_self⟩

/-- The layer id stands for another table after the edit. -/
def moved : Engine := keeper.across (remapped "stars,sky,comets")

/-- The reset pins the other table. It leaves the pin of the first one, which no hold reaches. -/
theorem pins_outlive_mapping :
    moved.Completes .reset ∧ moved.work.service.registry.tables = ["lab"] ∧
      moved.work.site.store.data.tables.find? "obs" = some ⟨"time", [⟨pastThree 10, 1⟩]⟩ ∧
      (moved.work.site.store.data.views.holds moved.work.service.registry).countP
        (Hold.reaches brief.window "obs" ⟨"time", [⟨pastThree 10, 1⟩]⟩ (pastThree 10)) = 0 := by
  have hfacts : moved.service.jobs = [⟨.issued 2, .reset, 1⟩] ∧
      (moved.dequeue.perform .reset).1.toOption.isSome = true ∧
      moved.work.service.registry.tables = ["lab"] ∧
      moved.work.site.store.data.tables.find? "obs" = some ⟨"time", [⟨pastThree 10, 1⟩]⟩ ∧
      (moved.work.site.store.data.views.holds moved.work.service.registry).countP
        (Hold.reaches brief.window "obs" ⟨"time", [⟨pastThree 10, 1⟩]⟩ (pastThree 10)) = 0 := by
    decide +kernel
  obtain ⟨hjobs, hsum, hleft⟩ := hfacts
  obtain ⟨sum, hsum⟩ := Option.isSome_iff_exists.1 hsum
  exact ⟨⟨⟨_, _, hjobs, rfl⟩, sum, ok_of_toOption hsum⟩, hleft⟩

end PinLedger
