import PinLedger.Proofs.Feed.Latest
import PinLedger.Proofs.Run.Redelivery
import PinLedger.Proofs.Service.Conservation

/-!
# PinLedger.Proofs.Service.Redelivery

A page that is delivered a second time does no harm. When a run over it has completed, the records
are as its views ask, and the next run finds nothing to do: neither the registry nor the tables
matter, nor what the store has been told to fail.

* `of_incremental` — what a run that completes has done
* `Engine.Revisits` — the same records, watermark and outages
* `redelivery_harmless` — the second run over a page
-/

namespace PinLedger

/-- Once the latest update of a page has been taken into account, it makes no difference. -/
theorem laterMark_again (mark latest : Option Instant) :
    Engine.laterMark (Engine.laterMark mark latest) latest = Engine.laterMark mark latest := by
  cases latest with
  | none =>
    cases mark with
    | none => rfl
    | some a => rfl
  | some b =>
    have hself : b.latest b = b := by
      rcases Instant.latest_eq b b with h | h
      · exact h
      · exact h
    cases mark with
    | none =>
      show some (b.latest b) = some b
      rw [hself]
    | some a =>
      show some ((a.latest b).latest b) = some (a.latest b)
      rcases Instant.latest_eq a b with h | h
      · rw [h, h]
      · rw [h, hself]

theorem laterMark_or (mark latest : Option Instant) :
    (Engine.laterMark mark latest).or mark = Engine.laterMark mark latest := by
  cases mark with
  | none => exact Option.or_none
  | some a =>
    cases latest with
    | none => rfl
    | some b => rfl

namespace Engine

variable {e e' : Engine} {sum : RunSummary} {views : List ParsedView} {latest : Option Instant}

/-- What a run that is not from scratch has read and done when it completes. -/
theorem of_incremental (hfetch : e.site.fetch e.site.store.data.lastRun = .ok (views, latest))
    (h : e.perform .incremental = (.ok sum, e')) :
    e.site.outages.onLastRun = none ∧ e.site.outages.onTransaction = none ∧
      e.site.store.data.update e.service.registry e.service.settings.window views
        (laterMark e.site.store.data.lastRun latest) = .ok (sum, e'.site.store.data) ∧
      e'.site.outages = e.site.outages := by
  have hmark : e.site.outages.onLastRun = none := by
    rcases ho : e.site.outages.onLastRun with _ | err | text
    · rfl
    · simp only [perform, incremental, lastRun, ho] at h
      cases h
    · simp only [perform, incremental, lastRun, ho] at h
      cases h
  rw [perform_eq_stages] at h
  simp only [begin, lastRun, hmark, gather, hfetch] at h
  have hpost := of_commit h
  obtain ⟨_, hsite, _, _⟩ := commit_frame h
  exact ⟨hmark, onTransaction_of_commit h, hpost, by rw [hsite]⟩

/-- The same records, watermark and outages. All else may be different: the registry, the window,
the tables, the feed, and what the store has been told to fail. -/
structure Revisits (e e' : Engine) : Prop where
  records : e'.site.store.data.views = e.site.store.data.views
  watermark : e'.site.store.data.lastRun = e.site.store.data.lastRun
  outages : e'.site.outages = e.site.outages

/-- A run over views whose records are as they ask completes and leaves nothing but its watermark. -/
theorem perform_of_mirrors (hmark : e.site.outages.onLastRun = none)
    (htrans : e.site.outages.onTransaction = none)
    (hfetch : e.site.fetch e.site.store.data.lastRun = .ok (views, latest))
    (h : ∀ v ∈ views, Mirrors (e.site.store.data.views.find? v.id) v) :
    ∃ e', e.perform .incremental =
        (.ok (.ofRest views (laterMark e.site.store.data.lastRun latest)), e') ∧
      e'.site.store.data = (laterMark e.site.store.data.lastRun latest).elim e.site.store.data
        fun t => { e.site.store.data with lastRun := some t } := by
  obtain ⟨s', hexec, hdata⟩ := exec_update_of_mirrors e.service.registry
    e.service.settings.window h (laterMark e.site.store.data.lastRun latest)
    e.site.store.faults e.service.settings.batchSize e.service.settings.batchSize
  have houtcome : e.outcome {
      fresh := false
      registry := e.service.registry
      views
      watermark := laterMark e.site.store.data.lastRun latest } =
        ⟨_, s', e.site.store.leftBy s' _⟩ := Store.transaction_of_exec hexec
  rw [perform_eq_stages]
  simp only [begin, lastRun, hmark, gather, hfetch, commit_eq, htrans, houtcome]
  exact ⟨_, rfl, hdata⟩

/-- **Delivering a page again does no harm.** A run over a page in which no id comes twice completes.
If the feed delivers the page again to the next run, that run completes as well. All views are
ignored or unchanged. No pin statement is carried out, and the data stay as they are: the pins, the
watermark and the records. A record that is written again gets the time of its view as its last
update, so that of a view without one is the moment of writing. -/
theorem redelivery_harmless {e₁ : Engine} (hnodup : (views.map (·.id)).Nodup)
    (hfetch : e.site.fetch e.site.store.data.lastRun = .ok (views, latest))
    (hrun : e.perform .incremental = (.ok sum, e₁)) (hsame : e₁.Revisits e')
    (hagain : e'.site.fetch e'.site.store.data.lastRun = .ok (views, latest)) :
    (∀ v ∈ views, classify e'.service.settings.window (e'.site.store.data.views.find? v.id) v =
      if v.disabled then .ignored else .unchanged) ∧
    (∀ v ∈ views, v.disabled = false → ∃ r, e'.site.store.data.views.find? v.id = some r ∧
      r.lastUpdate = .ofTold v.lastUpdate) ∧
    ∃ e₂, e'.perform .incremental = (.ok {
        viewsSeen := views.length
        unchanged := views.countP (!·.disabled)
        ignored := views.countP (·.disabled)
        pinStatements := 0
        viewStatements := views.countP (!·.disabled)
        watermark := e'.site.store.data.lastRun }, e₂) ∧
      e₂.site.store.data = e'.site.store.data := by
  obtain ⟨hmark, htrans, hupdate, houtages⟩ := of_incremental hfetch hrun
  obtain ⟨hupdated, hstored⟩ := mirrors_update hnodup hupdate
  rw [laterMark_or] at hstored
  have hmirrors : ∀ v ∈ views, Mirrors (e'.site.store.data.views.find? v.id) v := by
    rw [hsame.records]
    exact hupdated.mirrors
  have hlater : laterMark e'.site.store.data.lastRun latest = e'.site.store.data.lastRun := by
    rw [hsame.watermark, hstored, laterMark_again]
  have hmark' : e'.site.outages.onLastRun = none := by rw [hsame.outages, houtages, hmark]
  have htrans' : e'.site.outages.onTransaction = none := by rw [hsame.outages, houtages, htrans]
  refine ⟨fun v hv => classify_of_mirrors (hmirrors v hv), ?_, ?_⟩
  · intro v hv henabled
    rcases mirrors_cases (hmirrors v hv) with ⟨hd, _⟩ | ⟨_, r, hr, _, _, _, hlast⟩
    · rw [henabled] at hd
      cases hd
    · exact ⟨r, hr, hlast⟩
  · obtain ⟨e₂, hperform, hdata⟩ := perform_of_mirrors hmark' htrans' hagain hmirrors
    rw [hlater] at hperform hdata
    refine ⟨e₂, hperform, ?_⟩
    rw [hdata]
    cases hlast : e'.site.store.data.lastRun with
    | none => rfl
    | some t =>
      show ({ e'.site.store.data with lastRun := some t } : StoreData) = e'.site.store.data
      rw [← hlast]

end Engine

/-! A view that does not tell when it was changed comes with every page. It is pinned in the
afternoon; then the registry and the tables are lost. -/

def untimed : Engine :=
  { watcher with site := { observatory with
    feed := { views := [{ stargazer with lastUpdate := none }] } } }

/-- The engine without bindings and tables. -/
def Engine.gutted (e : Engine) : Engine where
  service := { e.service with registry := .ofLayers [] }
  site := { e.site with store := {
    e.site.store with data := { e.site.store.data with tables := ∅ } } }
  log := e.log

theorem redelivery_harmless_untimed :
    ∃ e₁ e₂, untimed.perform .incremental = (.ok {
        viewsSeen := 1, created := 1, pinStatements := 1, viewStatements := 1 }, e₁) ∧
      e₁.gutted.perform .incremental = (.ok {
        viewsSeen := 1, unchanged := 1, viewStatements := 1
        watermark := e₁.gutted.site.store.data.lastRun }, e₂) ∧
      e₂.site.store.data = e₁.gutted.site.store.data := by
  have hgutted : ∀ e : Engine, e.Revisits e.gutted := fun _ => ⟨rfl, rfl, rfl⟩
  have hfetch : (untimed.site.fetch untimed.site.store.data.lastRun).toOption =
      some ([⟨1, ["stars"], afternoon, .absolute, false, none, none⟩], none) := by decide +kernel
  have hrun : (untimed.perform .incremental).1.toOption = some {
      viewsSeen := 1, created := 1, pinStatements := 1, viewStatements := 1 } := by decide +kernel
  have hagain : ((untimed.perform .incremental).2.gutted.site.fetch
      (untimed.perform .incremental).2.gutted.site.store.data.lastRun).toOption =
        some ([⟨1, ["stars"], afternoon, .absolute, false, none, none⟩], none) := by decide +kernel
  obtain ⟨_, _, e₂, hperform, hdata⟩ := Engine.redelivery_harmless (by decide)
    (ok_of_toOption hfetch) (eq_ok_of_toOption hrun) (hgutted _) (ok_of_toOption hagain)
  exact ⟨_, e₂, eq_ok_of_toOption hrun, hperform, hdata⟩

end PinLedger
