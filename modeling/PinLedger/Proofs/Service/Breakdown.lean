import PinLedger.Proofs.Service.Admission

/-!
# PinLedger.Proofs.Service.Breakdown

The worker of a service goes only if the catalog breaks down. Nothing that a service does itself
changes what its site is told to fail.

* `Site.breakdown_of_readRegistry` — only then does reading the registry break down
* `breakdown_of_perform` — nor does a run otherwise
* `Post.Steady`, `Move.Steady` — the catalog does not break down
* `steady_next` — and the worker stays
-/

namespace PinLedger

/-- A registry that could not be made failed at a question to the catalog. -/
theorem Registry.of_resolveFrom_failed {lookup : Lookup} {s : Resolution} {es : List MappingEntry}
    {err : CatalogError} (h : (resolveFrom lookup s es).2 = some err) :
    ∃ workspace name, lookup workspace name = .error err := by
  induction es generalizing s with
  | nil => cases h
  | cons e es ih =>
    unfold resolveFrom at h
    cases hadd : s.add lookup e with
    | ok s' =>
      rw [hadd] at h
      exact ih h
    | error err' =>
      rw [hadd] at h
      cases h
      unfold Resolution.add at hadd
      refine ⟨e.workspace, e.name, ?_⟩
      rcases hl : lookup e.workspace e.name with err' | _ | c
      · rw [hl] at hadd
        cases hadd
        rfl
      · rw [hl] at hadd
        cases hadd
      · rw [hl] at hadd
        cases hadd

theorem Site.breakdown_of_readRegistry {s : Site} {source : MappingSource} {text : String}
    (h : (s.readRegistry source).1 = .error (.breakdown text)) :
    s.outages.catalog = some .breakdown := by
  unfold readRegistry at h
  rcases hread : s.readMapping source with ⟨r, ws⟩
  rw [hread] at h
  cases r with
  | error err =>
    -- the mapping is not asked of the catalog
    cases source with
    | entries es => cases hread
    | file path =>
      cases hfile : s.files.find? path with
      | none =>
        simp only [readMapping, hfile] at hread
        cases hread
        cases h
      | some text' =>
        simp only [readMapping, hfile] at hread
        cases hread
  | ok es =>
    cases hfailed : (Registry.resolve s.lookup es).2 with
    | none =>
      simp only [hfailed] at h
      cases h
    | some err =>
      simp only [hfailed] at h
      cases h
      obtain ⟨workspace, name, hl⟩ := Registry.of_resolveFrom_failed hfailed
      unfold lookup at hl
      rcases ho : s.outages.catalog with _ | o
      · rw [ho] at hl
        cases hl
      · cases o with
        | breakdown => rfl
        | error =>
          rw [ho] at hl
          cases hl
        | refusal =>
          rw [ho] at hl
          cases hl

namespace Engine

variable {e e' : Engine}

/-- What the site is told to fail, and whether the worker is gone. -/
def footing (e : Engine) : Outages × Bool := (e.site.outages, e.service.stopped)

theorem footing_of_connect {r : Except Refusal SessionId} (h : e.connect = (r, e')) :
    e'.footing = e.footing := by
  cases r with
  | error r => rw [of_connect_error h]
  | ok a =>
    obtain ⟨_, rfl⟩ := of_connect_ok h
    rfl

theorem footing_of_takeLock {a : SessionId} {r : Except Refusal SessionId}
    (h : e.takeLock a = (r, e')) : e'.footing = e.footing := by
  cases r with
  | error r =>
    rw [of_takeLock_error h]
    rfl
  | ok b =>
    obtain ⟨_, _, rfl⟩ := of_takeLock_ok h
    rfl

theorem footing_enqueue (e : Engine) (job : Job) : (e.enqueue job).2.footing = e.footing := by
  unfold enqueue
  split
  · rfl
  · rfl

theorem footing_of_begin {kind : TaskKind} {r : Except RunError Request}
    (h : e.begin kind = (r, e')) : e'.footing = e.footing := by
  obtain ⟨hsite, registry, hservice, _⟩ := begin_frame h
  unfold footing
  rw [hsite, hservice]

theorem footing_of_commit {l : Load} {r : Except RunError RunSummary}
    (h : e.commit l = (r, e')) : e'.footing = e.footing := by
  obtain ⟨hservice, hsite, _⟩ := commit_frame h
  unfold footing
  rw [hservice, hsite]

theorem footing_giveBack (e : Engine) (a : SessionId) : (e.giveBack a).footing = e.footing := by
  obtain ⟨store, log, he, _⟩ := giveBack_frame e a
  rw [he]
  rfl

theorem footing_conclude (e : Engine) (task : TaskId) (r : Except RunError RunSummary) :
    (e.conclude task r).footing = e.footing := by
  cases r with
  | error err => rfl
  | ok sum => rfl

/-- A run breaks down before it asks the feed, and with the catalog. -/
theorem breakdown_of_begin {kind : TaskKind} {text : String}
    (h : e.begin kind = (.error (.catalog (.breakdown text)), e')) :
    e.site.outages.catalog = some .breakdown := by
  cases kind with
  | reset =>
    simp only [begin, reload_eq] at h
    rcases hread : e.site.readRegistry e.service.settings.mapping with ⟨read, ws⟩
    rw [hread] at h
    cases read with
    | error err =>
      cases h
      exact Site.breakdown_of_readRegistry (congrArg Prod.fst hread)
    | ok registry => cases h
  | incremental =>
    rcases ho : e.site.outages.onLastRun with _ | err | text'
    · simp only [begin, lastRun, ho] at h
      cases h
    · simp only [begin, lastRun, ho] at h
      cases h
    · simp only [begin, lastRun, ho] at h
      cases h

theorem gather_ne_breakdown {r : Request} {text : String} :
    e.gather r ≠ .error (.catalog (.breakdown text)) := by
  intro h
  rw [gather_eq] at h
  cases hfetch : e.site.fetch r.mark with
  | error err =>
    rw [hfetch] at h
    cases h
  | ok page =>
    rw [hfetch] at h
    cases h

theorem commit_ne_breakdown {l : Load} {text : String} :
    (e.commit l).1 ≠ .error (.catalog (.breakdown text)) := by
  intro h
  rw [commit_eq] at h
  rcases ho : e.site.outages.onTransaction with _ | err | text'
  · rcases hr : (e.outcome l).result with (err | _) | sum
    · simp only [ho, hr] at h
      cases h
    · simp only [ho, hr] at h
      cases h
    · simp only [ho, hr] at h
      cases h
  · simp only [ho] at h
    cases h
  · simp only [ho] at h
    cases h

/-- A run breaks down only with the catalog. -/
theorem breakdown_of_perform {kind : TaskKind} {text : String}
    (h : (e.perform kind).1 = .error (.catalog (.breakdown text))) :
    e.site.outages.catalog = some .breakdown := by
  rw [perform_eq_stages] at h
  rcases hbegin : e.begin kind with ⟨request, e₁⟩
  rw [hbegin] at h
  cases request with
  | error err =>
    cases h
    exact breakdown_of_begin hbegin
  | ok request =>
    cases hgather : e₁.gather request with
    | error err =>
      simp only [hgather] at h
      cases h
      exact absurd hgather gather_ne_breakdown
    | ok l =>
      simp only [hgather] at h
      exact absurd h commit_ne_breakdown

end Engine

/-! ### Steps -/

/-- The catalog does not break down. -/
def Post.Steady (p : Post) : Prop := p.engine.site.outages.catalog ≠ some .breakdown

def Move.Steady : Move → Prop
  | .tell site => site.outages.catalog ≠ some .breakdown
  | _ => True

namespace Post

variable {p : Post}

theorem footing_finish (p : Post) (job : Job) {e : Engine} {r : Except RunError RunSummary}
    (h : ∀ text, r ≠ .error (.catalog (.breakdown text))) :
    (p.finish job (r, e)).engine.footing = e.footing := by
  rcases r with err | sum
  · cases err with
    | store err => rfl
    | feed err => rfl
    | catalog err =>
      cases err with
      | mappingFile path => rfl
      | lookup layer text => rfl
      | breakdown text => exact absurd rfl (h text)
    | lost => rfl
  · rfl

theorem footing_read (h : p.Steady) : p.read.engine.footing = p.engine.footing := by
  unfold read
  split
  · rename_i job hduty
    rcases hbegin : p.engine.begin job.kind with ⟨r, e⟩
    have he := Engine.footing_of_begin hbegin
    cases r with
    | ok r => exact he
    | error err =>
      refine (footing_finish p job ?_).trans he
      intro text htext
      cases htext
      exact h (Engine.breakdown_of_begin hbegin)
  · rfl

theorem footing_gather (p : Post) : p.gather.engine.footing = p.engine.footing := by
  unfold gather
  split
  · rename_i job r hduty
    cases hgather : p.engine.gather r with
    | ok l => rfl
    | error err =>
      refine footing_finish p job ?_
      intro text htext
      cases htext
      exact Engine.gather_ne_breakdown hgather
  · rfl

theorem footing_commit (p : Post) : p.commit.engine.footing = p.engine.footing := by
  unfold commit
  split
  · rename_i job r l hduty
    rcases hcommit : p.engine.commit l with ⟨result, e⟩
    refine (footing_finish p job ?_).trans (Engine.footing_of_commit hcommit)
    intro text htext
    have hresult : (p.engine.commit l).1 = .error (.catalog (.breakdown text)) := by
      rw [hcommit]
      exact htext
    exact Engine.commit_ne_breakdown hresult
  · rfl

/-- Only the catalog takes the worker with it. -/
theorem footing_next (h : p.Steady) {m : Move} (hm : ∀ site, m ≠ .tell site) :
    (p.next m).engine.footing = p.engine.footing := by
  cases m with
  | call kind =>
    simp only [next, call]
    split
    · split
      · rfl
      · rfl
    · rfl
  | connect =>
    simp only [next, connect]
    split
    · rcases hopen : p.engine.connect with ⟨r, e⟩
      have he := Engine.footing_of_connect hopen
      cases r with
      | error r => exact he
      | ok session => exact he
    · rfl
  | lock =>
    simp only [next, lock]
    split
    · rename_i kind session hgate
      rcases htake : p.engine.takeLock session with ⟨r, e⟩
      have he := Engine.footing_of_takeLock htake
      cases r with
      | error r => exact he
      | ok session => exact he
    · rfl
  | begin =>
    simp only [next, begin]
    split
    · rfl
    · rfl
  | send =>
    simp only [next, send]
    split
    · exact Engine.footing_enqueue _ _
    · rfl
  | pickUp =>
    simp only [next, pickUp]
    split
    · rfl
    · rfl
  | read => exact footing_read h
  | gather => exact footing_gather p
  | commit => exact footing_commit p
  | unlock =>
    simp only [next, unlock]
    split
    · exact Engine.footing_giveBack _ _
    · rfl
  | drop =>
    simp only [next, drop]
    split
    · rfl
    · rfl
  | conclude =>
    simp only [next, conclude]
    split
    · exact Engine.footing_conclude _ _ _
    · rfl
  | tell site => exact absurd rfl (hm site)

/-- As long as the catalog does not break down, the worker stays. -/
theorem steady_next (h : p.Steady) (hup : p.service.stopped = false) {m : Move} (hm : m.Steady) :
    (p.next m).Steady ∧ (p.next m).service.stopped = false := by
  by_cases htell : ∃ site, m = .tell site
  · obtain ⟨site, rfl⟩ := htell
    exact ⟨hm, hup⟩
  · have hfooting := footing_next h (m := m) fun site hsite => htell ⟨site, hsite⟩
    obtain ⟨houtages, hstopped⟩ := Prod.mk.inj hfooting
    refine ⟨?_, hstopped.trans hup⟩
    unfold Steady
    rw [houtages]
    exact h

end Post

end PinLedger
