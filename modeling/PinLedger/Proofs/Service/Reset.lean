import PinLedger.Proofs.Feed.Latest
import PinLedger.Proofs.Run.Forgetting
import PinLedger.Proofs.Service.Conservation

/-!
# PinLedger.Proofs.Service.Reset

A reset forgets history: whatever the pins, the records and the watermark were, it ends as the first
run on a fresh copy of the data does, and a second reset changes nothing.

* `of_reset`, `reset_of_rebuild`, `incremental_of_update` — runs on the data and runs of a service
* `first_run_of_reset`, `second_reset` — the runs that are compared with a reset
* `reset_forgets` — a reset, the first run on a fresh copy, and a second reset
-/

namespace PinLedger
namespace Engine

variable {e e' : Engine} {sum : RunSummary} {registry : Registry} {views : List ParsedView}
variable {latest : Option Instant} {d : StoreData}

/-- What a reset that completes has read and done. -/
theorem of_reset (h : e.perform .reset = (.ok sum, e')) :
    ∃ registry views latest,
      (e.site.readRegistry e.service.settings.mapping).1 = .ok registry ∧
      e.site.fetch none = .ok (views, latest) ∧
      e.site.outages.onTransaction = none ∧
      e.site.store.data.rebuild registry e.service.settings.window views latest =
        .ok (sum, e'.site.store.data) ∧
      e'.service = { e.service with registry } ∧
      e'.site = { e.site with store := e'.site.store } ∧
      (e.site.store.faults.batchesLeft = none → e'.site.store.faults.batchesLeft = none) := by
  rw [perform_eq_stages] at h
  rcases hb : e.begin .reset with ⟨request, e₁⟩
  obtain ⟨hsite, registry, hservice, _⟩ := begin_frame hb
  rw [hb] at h
  cases request with
  | error err => cases h
  | ok request =>
    have hbegun := of_begin hb
    cases request with
    | since mark => cases hbegun.1
    | all registry' =>
      obtain ⟨_, hread, hregistry⟩ := hbegun
      rw [hservice] at hregistry
      subst hregistry
      simp only [gather] at h
      cases hfetch : e₁.site.fetch none with
      | error err =>
        rw [hfetch] at h
        cases h
      | ok page =>
        rw [hfetch] at h
        change e₁.commit { fresh := true, registry, views := page.1, watermark := page.2 } =
          (.ok sum, e') at h
        have htrans := onTransaction_of_commit h
        have hpost := of_commit h
        obtain ⟨hservice', hsite', _, _⟩ := commit_frame h
        refine ⟨registry, page.1, page.2, hread, ?_, ?_, ?_, hservice'.trans hservice, ?_, ?_⟩
        · rw [← hsite, hfetch]
        · rw [← hsite]
          exact htrans
        · rw [← hsite]
          rw [hservice] at hpost
          exact hpost
        · rw [hsite', hsite]
        · intro hfaults
          rw [← hsite] at hfaults
          obtain ⟨e₂, hcommit, _, hfaults₂⟩ := commit_of_post htrans hfaults hpost
          rw [hcommit] at h
          cases h
          exact hfaults₂

/-- A reset that can be done completes. -/
theorem reset_of_rebuild
    (hread : (e.site.readRegistry e.service.settings.mapping).1 = .ok registry)
    (hfetch : e.site.fetch none = .ok (views, latest))
    (htrans : e.site.outages.onTransaction = none)
    (hfaults : e.site.store.faults.batchesLeft = none)
    (h : e.site.store.data.rebuild registry e.service.settings.window views latest =
      .ok (sum, d)) :
    ∃ e', e.perform .reset = (.ok sum, e') ∧ e'.site.store.data = d := by
  rcases hr : e.site.readRegistry e.service.settings.mapping with ⟨read, ws⟩
  rw [hr] at hread
  cases hread
  obtain ⟨e', hcommit, hdata, _⟩ := commit_of_post
    (e := { e.warn ws with service := { e.service with registry } })
    (l := { fresh := true, registry, views, watermark := latest }) htrans hfaults h
  refine ⟨e', ?_, hdata⟩
  rw [perform_eq_stages]
  simp only [begin, reload_eq, hr, gather]
  have hfetch' : ({ e.warn ws with service := { e.service with registry } } : Engine).site.fetch
      none = .ok (views, latest) := hfetch
  rw [hfetch']
  exact hcommit

/-- So does a run over what changed. -/
theorem incremental_of_update (hmark : e.site.outages.onLastRun = none)
    (hfetch : e.site.fetch e.site.store.data.lastRun = .ok (views, latest))
    (htrans : e.site.outages.onTransaction = none)
    (hfaults : e.site.store.faults.batchesLeft = none)
    (h : e.site.store.data.update e.service.registry e.service.settings.window views
      (laterMark e.site.store.data.lastRun latest) = .ok (sum, d)) :
    ∃ e', e.perform .incremental = (.ok sum, e') ∧ e'.site.store.data = d := by
  obtain ⟨e', hcommit, hdata, _⟩ := commit_of_post
    (l := {
      fresh := false
      registry := e.service.registry
      views
      watermark := laterMark e.site.store.data.lastRun latest }) htrans hfaults h
  refine ⟨e', ?_, hdata⟩
  rw [perform_eq_stages]
  simp only [begin, lastRun, hmark, gather, hfetch]
  exact hcommit

/-- The service with this registry at the same site, but with other data. -/
def copy (e : Engine) (registry : Registry) (d : StoreData) : Engine where
  service := { e.service with registry }
  site := { e.site with store := { e.site.store with data := d } }

/-- The first run on a fresh copy completes and leaves what the reset has left. -/
theorem first_run_of_reset {d₀ : StoreData} (h : e.perform .reset = (.ok sum, e'))
    (hfaults : e.site.store.faults.batchesLeft = none)
    (hmark : e.site.outages.onLastRun = none) (hfresh : FreshCopy d₀ e.site.store.data) :
    ∃ sum₀ e₀, (e.copy e'.service.registry d₀).perform .incremental = (.ok sum₀, e₀) ∧
      Alike e'.service.registry e'.site.store.data e₀.site.store.data ∧
      ∀ raw, e.site.feed.fetch none = .ok raw → (∃ v ∈ raw, v.lastUpdate ≠ none) →
        ∃ t, e₀.site.store.data.lastRun = some t ∧ e'.site.store.data.lastRun = some t := by
  obtain ⟨registry, views, latest, _, hfetch, htrans, hrun, hservice, _, _⟩ := of_reset h
  have hregistry : e'.service.registry = registry := by rw [hservice]
  rw [hregistry]
  obtain ⟨sum₀, d₀', hrun₀, halike, hstored⟩ := update_of_rebuild hfresh hrun
  have hfetch₀ : (e.copy registry d₀).site.fetch d₀.lastRun = .ok (views, latest) := by
    rw [hfresh.lastRun]
    exact hfetch
  have hrun₀' : d₀.update registry e.service.settings.window views
      (laterMark d₀.lastRun latest) = .ok (sum₀, d₀') := by
    rw [hfresh.lastRun]
    exact hrun₀
  obtain ⟨e₀, hperform, hdata⟩ :=
    incremental_of_update (e := e.copy registry d₀) hmark hfetch₀ htrans hfaults hrun₀'
  rw [← hdata] at halike hstored
  refine ⟨sum₀, e₀, hperform, halike, ?_⟩
  intro raw hraw htold
  obtain ⟨v, hv, htold⟩ := htold
  obtain ⟨t, ht⟩ := Option.ne_none_iff_exists'.1 htold
  obtain ⟨raw', hraw', _, hlatest⟩ := Site.fetch_eq_ok hfetch
  rw [ite_self, hraw] at hraw'
  cases hraw'
  obtain ⟨m, hm, _⟩ := le_latestUpdate hv ht
  obtain ⟨hstored', hstored₀⟩ := hstored m (hlatest.trans hm)
  exact ⟨m, hstored₀, hstored'⟩

/-- A second reset completes and changes nothing. -/
theorem second_reset (h : e.perform .reset = (.ok sum, e'))
    (hfaults : e.site.store.faults.batchesLeft = none) :
    ∃ sum₂ e₂, e'.perform .reset = (.ok sum₂, e₂) ∧
      Alike e'.service.registry e'.site.store.data e₂.site.store.data := by
  obtain ⟨registry, views, latest, hread, hfetch, htrans, hrun, hservice, hsite, hsound⟩ :=
    of_reset h
  have hregistry : e'.service.registry = registry := by rw [hservice]
  have hsettings : e'.service.settings = e.service.settings := by rw [hservice]
  rw [hregistry]
  obtain ⟨sum₂, d₂, hrun₂, halike⟩ :=
    rebuild_of_skeleton (StoreData.skeleton_rebuild hrun).symm hrun
  have hread' : (e'.site.readRegistry e'.service.settings.mapping).1 = .ok registry := by
    rw [hsite, hsettings]
    exact hread
  have hfetch' : e'.site.fetch none = .ok (views, latest) := by
    rw [hsite]
    exact hfetch
  have htrans' : e'.site.outages.onTransaction = none := by
    rw [hsite]
    exact htrans
  have hrun₂' : e'.site.store.data.rebuild registry e'.service.settings.window views latest =
      .ok (sum₂, d₂) := by
    rw [hsettings]
    exact hrun₂
  obtain ⟨e₂, hperform, hdata⟩ :=
    reset_of_rebuild hread' hfetch' htrans' (hsound hfaults) hrun₂'
  rw [← hdata] at halike
  exact ⟨sum₂, e₂, hperform, halike⟩

/-- **A reset forgets history.** After a reset that completes without told failures, the tables of
the registry and the records are those that a first run leaves on a fresh copy of the data, which
completes too; both have stored the same watermark if some view of the feed tells its update. A
second reset completes and changes none of them. -/
theorem reset_forgets {d₀ : StoreData} (h : e.perform .reset = (.ok sum, e'))
    (hfaults : e.site.store.faults.batchesLeft = none)
    (hmark : e.site.outages.onLastRun = none) (hfresh : FreshCopy d₀ e.site.store.data) :
    (∃ sum₀ e₀, (e.copy e'.service.registry d₀).perform .incremental = (.ok sum₀, e₀) ∧
      (∀ name ∈ e'.service.registry.tables,
        e₀.site.store.data.tables.find? name = e'.site.store.data.tables.find? name) ∧
      e₀.site.store.data.views = e'.site.store.data.views ∧
      ∀ raw, e.site.feed.fetch none = .ok raw → (∃ v ∈ raw, v.lastUpdate ≠ none) →
        ∃ t, e₀.site.store.data.lastRun = some t ∧ e'.site.store.data.lastRun = some t) ∧
    ∃ sum₂ e₂, e'.perform .reset = (.ok sum₂, e₂) ∧
      (∀ name ∈ e'.service.registry.tables,
        e₂.site.store.data.tables.find? name = e'.site.store.data.tables.find? name) ∧
      e₂.site.store.data.views = e'.site.store.data.views := by
  constructor
  · obtain ⟨sum₀, e₀, hperform, halike, hstored⟩ := first_run_of_reset h hfaults hmark hfresh
    exact ⟨sum₀, e₀, hperform, fun name hname => (halike.tables name hname).symm,
      halike.views.symm, hstored⟩
  · obtain ⟨sum₂, e₂, hperform, halike⟩ := second_reset h hfaults
    exact ⟨sum₂, e₂, hperform, fun name hname => (halike.tables name hname).symm,
      halike.views.symm⟩

end Engine

/-! The site of the observatory with pins and a watermark that nothing accounts for. -/

def neglected : Engine :=
  { watcher with site := { observatory with
    feed := { views := [stargazer] }
    store := { data := {
      tables := .ofList [("obs", ⟨"time", [⟨afternoon, 5⟩, ⟨evening, 2⟩]⟩)]
      lastRun := some evening } } } }

theorem freshCopy_observatory : FreshCopy observatory.store.data neglected.site.store.data := by
  refine ⟨?_, rfl, rfl⟩
  intro name
  change (if name = "obs" then some _ else none) = (if name = "obs" then some _ else none).map _
  by_cases hname : name = "obs"
  · rw [if_pos hname, if_pos hname]
    rfl
  · rw [if_neg hname, if_neg hname]
    rfl

theorem reset_forgets_neglected :
    ∃ sum₀ e₀, (neglected.copy (neglected.perform .reset).2.service.registry
        observatory.store.data).perform .incremental = (.ok sum₀, e₀) ∧
      e₀.site.store.data.views = (neglected.perform .reset).2.site.store.data.views := by
  have hsum : (neglected.perform .reset).1.toOption = some {
      viewsSeen := 1, created := 1, pinStatements := 2, viewStatements := 1
      watermark := some afternoon } := by decide +kernel
  have hreset := eq_ok_of_toOption hsum
  have h := Engine.reset_forgets hreset rfl rfl freshCopy_observatory
  obtain ⟨⟨sum₀, e₀, hperform, _, hviews, _⟩, _⟩ := h
  exact ⟨sum₀, e₀, hperform, hviews⟩

end PinLedger
