import PinLedger.Proofs.Run.Transaction
import PinLedger.Service.Worker

/-!
# PinLedger.Proofs.Service.Stages

The stages of a run. Between them other parties may act: a run reads the registry or the watermark,
then asks the feed, and then does its work in one transaction.

* `Engine.begin`, `Engine.gather`, `Engine.commit` — the stages
* `Load.post_eq` — what a run is going to do: it starts a ledger and posts its views
* `perform_eq_stages` — a run is its stages one after another
* `of_commit`, `data_of_commit_error` — what the last stage does to the data
* `Engine.load`, `perform_iff` — what a run is going to do, and when it completes
-/

namespace PinLedger

/-- What a run has read before it asks the feed. -/
inductive Request where
  /-- A run from scratch has read the registry. -/
  | all (registry : Registry)
  /-- Another run has read the watermark. -/
  | since (mark : Option Instant)
deriving DecidableEq

/-- What is fetched from a feed: a page, decoded, and the latest update that it tells. -/
theorem Site.fetch_eq_ok {s : Site} {since latest : Option Instant} {views : List ParsedView}
    (h : s.fetch since = .ok (views, latest)) :
    ∃ page, s.feed.fetch (if s.feedGivesAll then none else since) = .ok page ∧
      page.mapM RawView.parse = .ok views ∧ latest = latestUpdate page := by
  obtain ⟨page, hpage, h⟩ := bind_eq_ok.1 h
  obtain ⟨views', hviews, h⟩ := bind_eq_ok.1 h
  cases h
  exact ⟨page, hpage, hviews, rfl⟩

/-- What a run is going to do in its transaction. -/
structure Load where
  /-- All pins and records are dropped first. -/
  fresh : Bool
  registry : Registry
  views : List ParsedView
  watermark : Option Instant
deriving DecidableEq

namespace Load

def work (w : Window) (l : Load) : Work RunSummary :=
  if l.fresh then Work.rebuild l.registry w l.views l.watermark
  else Work.update l.registry w l.views l.watermark

/-- What the work comes to. -/
def post (w : Window) (l : Load) (d : StoreData) : Except Abort (RunSummary × StoreData) :=
  if l.fresh then d.rebuild l.registry w l.views l.watermark
  else d.update l.registry w l.views l.watermark

/-- The ledger to which the views are posted. -/
def start (l : Load) (d : StoreData) : Except Abort Ledger :=
  if l.fresh then Ledger.wipe l.registry ⟨d, 0, 0⟩ else .ok ⟨d, 0, 0⟩

theorem post_eq (w : Window) (l : Load) (d : StoreData) :
    l.post w d = l.start d >>= Ledger.run l.registry w l.views l.watermark := by
  unfold post start
  cases l.fresh
  · rfl
  · rfl

end Load

namespace Request

/-- From when on the feed is asked for changes. -/
def mark : Request → Option Instant
  | .all _ => none
  | .since mark => mark

/-- What a run is going to do with a page. A run that is not from scratch takes the registry as it is
when the page has come. -/
def load (current : Registry) (page : List ParsedView × Option Instant) : Request → Load
  | .all registry => { fresh := true, registry, views := page.1, watermark := page.2 }
  | .since mark => {
      fresh := false
      registry := current
      views := page.1
      watermark := Engine.laterMark mark page.2 }

end Request

namespace Engine

def begin (e : Engine) : TaskKind → Except RunError Request × Engine
  | .reset =>
    match e.reload with
    | (.error err, e) => (.error err, e)
    | (.ok registry, e) => (.ok (.all registry), e)
  | .incremental =>
    match e.lastRun with
    | .error err => (.error err, e)
    | .ok mark => (.ok (.since mark), e)

/-- Asks the feed. A run that is not from scratch takes the registry as it is then. -/
def gather (e : Engine) : Request → Except RunError Load
  | .all registry =>
    match e.site.fetch none with
    | .error err => .error (.feed err)
    | .ok (views, latest) => .ok { fresh := true, registry, views, watermark := latest }
  | .since mark =>
    match e.site.fetch mark with
    | .error err => .error (.feed err)
    | .ok (views, latest) => .ok {
        fresh := false
        registry := e.service.registry
        views
        watermark := laterMark mark latest }

def commit (e : Engine) (l : Load) : Except RunError RunSummary × Engine :=
  e.transact (l.work e.service.settings.window)

/-- A run is its stages one after another. -/
theorem perform_eq_stages (e : Engine) (kind : TaskKind) :
    e.perform kind =
      match e.begin kind with
      | (.error err, e) => (.error err, e)
      | (.ok r, e) =>
        match e.gather r with
        | .error err => (.error err, e)
        | .ok l => e.commit l := by
  cases kind with
  | reset =>
    simp only [perform, reset, begin]
    rcases e.reload with ⟨r, e'⟩
    cases r with
    | error err => rfl
    | ok registry =>
      simp only [gather]
      cases e'.site.fetch none with
      | error err => rfl
      | ok page => rfl
  | incremental =>
    simp only [perform, incremental, begin]
    cases e.lastRun with
    | error err => rfl
    | ok mark =>
      simp only [gather]
      cases e.site.fetch mark with
      | error err => rfl
      | ok page => rfl

/-- What is gathered is what the request makes of the page. -/
theorem gather_eq (e : Engine) (r : Request) :
    e.gather r = ((e.site.fetch r.mark).mapError .feed).map (r.load e.service.registry) := by
  cases r with
  | all registry =>
    simp only [gather, Request.mark]
    cases e.site.fetch none with
    | error err => rfl
    | ok page => rfl
  | since mark =>
    simp only [gather, Request.mark]
    cases e.site.fetch mark with
    | error err => rfl
    | ok page => rfl

theorem gather_eq_ok {e : Engine} {r : Request} {l : Load} (h : e.gather r = .ok l) :
    ∃ page, e.site.fetch r.mark = .ok page ∧ l = r.load e.service.registry page := by
  rw [gather_eq] at h
  obtain ⟨page, hpage, rfl⟩ := map_eq_ok.1 h
  exact ⟨page, mapError_eq_ok.1 hpage, rfl⟩

/-! ### What the stages leave as it is -/

/-- Reading the registry again changes nothing else. -/
theorem reload_eq (e : Engine) :
    e.reload =
      match e.site.readRegistry e.service.settings.mapping with
      | (.error err, ws) => (.error (.catalog err), e.warn ws)
      | (.ok registry, ws) =>
        (.ok registry, { e.warn ws with service := { e.service with registry } }) := by
  unfold reload
  rcases e.site.readRegistry e.service.settings.mapping with ⟨r, ws⟩
  cases r with
  | error err => rfl
  | ok registry => rfl

/-- The first stage reads the registry again, or nothing but the watermark. -/
theorem begin_frame {e e' : Engine} {kind : TaskKind} {r : Except RunError Request}
    (h : e.begin kind = (r, e')) :
    e'.site = e.site ∧
      ∃ registry, e'.service = { e.service with registry } ∧
        (registry = e.service.registry ∨
          (e.site.readRegistry e.service.settings.mapping).1 = .ok registry) := by
  cases kind with
  | reset =>
    simp only [begin, reload_eq] at h
    rcases hread : e.site.readRegistry e.service.settings.mapping with ⟨read, ws⟩
    rw [hread] at h
    cases read with
    | error err =>
      cases h
      exact ⟨rfl, e.service.registry, rfl, .inl rfl⟩
    | ok registry =>
      cases h
      exact ⟨rfl, registry, rfl, .inr rfl⟩
  | incremental =>
    simp only [begin] at h
    cases hmark : e.lastRun with
    | error err =>
      rw [hmark] at h
      cases h
      exact ⟨rfl, e.service.registry, rfl, .inl rfl⟩
    | ok mark =>
      rw [hmark] at h
      cases h
      exact ⟨rfl, e.service.registry, rfl, .inl rfl⟩

/-- Two engines that read the same registry and the same watermark ask for the same. -/
theorem begin_map {F : Engine → Engine}
    (hread : ∀ e, (F e).site.readRegistry (F e).service.settings.mapping =
      e.site.readRegistry e.service.settings.mapping)
    (hwarn : ∀ e ws, (F e).warn ws = F (e.warn ws))
    (hreload : ∀ e ws registry,
      { (F e).warn ws with service := { (F e).service with registry } } =
        F { e.warn ws with service := { e.service with registry } })
    (hmark : ∀ e, (F e).lastRun = e.lastRun) (e : Engine) (kind : TaskKind) :
    (F e).begin kind = ((e.begin kind).1, F (e.begin kind).2) := by
  cases kind with
  | reset =>
    simp only [begin, reload_eq, hread]
    rcases e.site.readRegistry e.service.settings.mapping with ⟨read, ws⟩
    cases read with
    | error err => exact Prod.ext rfl (hwarn e ws)
    | ok registry => exact Prod.ext rfl (hreload e ws registry)
  | incremental =>
    simp only [begin, hmark]
    cases e.lastRun with
    | error err => rfl
    | ok mark => rfl

/-- A request from scratch comes with the registry as it is read, any other with the watermark. -/
theorem of_begin {e e' : Engine} {kind : TaskKind} {r : Request}
    (h : e.begin kind = (.ok r, e')) :
    match r with
    | .all registry =>
      kind = .reset ∧ (e.site.readRegistry e.service.settings.mapping).1 = .ok registry ∧
        e'.service.registry = registry
    | .since mark => kind = .incremental ∧ mark = e.site.store.data.lastRun ∧ e' = e := by
  cases kind with
  | reset =>
    simp only [begin, reload_eq] at h
    rcases hread : e.site.readRegistry e.service.settings.mapping with ⟨read, ws⟩
    rw [hread] at h
    cases read with
    | error err => cases h
    | ok registry =>
      cases h
      exact ⟨rfl, rfl, rfl⟩
  | incremental =>
    simp only [begin] at h
    cases hmark : e.lastRun with
    | error err =>
      rw [hmark] at h
      cases h
    | ok mark =>
      rw [hmark] at h
      cases h
      refine ⟨rfl, ?_, rfl⟩
      unfold lastRun at hmark
      cases ho : e.site.outages.onLastRun with
      | none =>
        rw [ho] at hmark
        cases hmark
        rfl
      | some t =>
        rw [ho] at hmark
        cases t with
        | error err => cases hmark
        | breakdown text => cases hmark

/-! ### The last stage -/

/-- The transaction of a run in the store. -/
def outcome (e : Engine) (l : Load) : Store.Outcome RunSummary :=
  e.site.store.transaction e.service.settings.batchSize e.service.settings.batchSize
    (l.work e.service.settings.window)

/-- How a run takes the end of its transaction. -/
def runResult : Except Abort RunSummary → Except RunError RunSummary
  | .ok sum => .ok sum
  | .error (.error err) => .error (.store err)
  | .error .overflow => .error .lost

theorem commit_eq (e : Engine) (l : Load) :
    e.commit l =
      match e.site.outages.onTransaction with
      | some (.error err) => (.error (.store err), e)
      | some (.breakdown _) => (.error .lost, e)
      | none =>
        (runResult (e.outcome l).result,
          (e.withStore (e.outcome l).store).warn (e.outcome l).workspace.warnings) := by
  simp only [commit, transact, outcome]
  rcases e.site.outages.onTransaction with _ | err | text
  · rcases e.site.store.transaction e.service.settings.batchSize e.service.settings.batchSize
      (l.work e.service.settings.window) with ⟨result, workspace, store⟩
    rcases result with (err | _) | sum
    · rfl
    · rfl
    · rfl
  · rfl
  · rfl

theorem runResult_eq_ok {r : Except Abort RunSummary} {sum : RunSummary}
    (h : runResult r = .ok sum) : r = .ok sum := by
  rcases r with (err | _) | sum'
  · cases h
  · cases h
  · cases h
    rfl

theorem runResult_eq_error {r : Except Abort RunSummary} {err : RunError}
    (h : runResult r = .error err) : ∃ a, r = .error a := by
  cases r with
  | error a => exact ⟨a, rfl⟩
  | ok sum => cases h

/-- The last stage changes nothing but the data, and uses up told faults. -/
theorem commit_frame {e e' : Engine} {l : Load} {r : Except RunError RunSummary}
    (h : e.commit l = (r, e')) :
    e'.service = e.service ∧ e'.site = { e.site with store := e'.site.store } ∧
      e'.site.store.locks = e.site.store.locks ∧
      e'.site.store.nextSession = e.site.store.nextSession := by
  rw [commit_eq] at h
  cases ho : e.site.outages.onTransaction with
  | some t =>
    rw [ho] at h
    cases t with
    | error err =>
      cases h
      exact ⟨rfl, rfl, rfl, rfl⟩
    | breakdown text =>
      cases h
      exact ⟨rfl, rfl, rfl, rfl⟩
  | none =>
    rw [ho] at h
    cases h
    obtain ⟨hlocks, hnext, _⟩ := Store.transaction_frame e.site.store
      e.service.settings.batchSize e.service.settings.batchSize (l.work e.service.settings.window)
    exact ⟨rfl, rfl, hlocks, hnext⟩

/-- A run that completes has posted its load. -/
theorem of_commit {e e' : Engine} {l : Load} {sum : RunSummary} (h : e.commit l = (.ok sum, e')) :
    l.post e.service.settings.window e.site.store.data = .ok (sum, e'.site.store.data) := by
  rw [commit_eq] at h
  cases ho : e.site.outages.onTransaction with
  | some t =>
    rw [ho] at h
    cases t with
    | error err => cases h
    | breakdown text => cases h
  | none =>
    rw [ho] at h
    obtain ⟨hresult, rfl⟩ := Prod.mk.inj h
    have hok : (e.outcome l).result = .ok sum := runResult_eq_ok hresult
    unfold outcome Load.work at hok
    unfold Load.post
    cases hfresh : l.fresh
    · simp only [hfresh, Bool.false_eq_true, if_false] at hok ⊢
      rw [Store.update_of_transaction hok]
      simp only [withStore, warn, outcome, Load.work, hfresh, Bool.false_eq_true, if_false]
    · simp only [hfresh, if_true] at hok ⊢
      rw [Store.rebuild_of_transaction hok]
      simp only [withStore, warn, outcome, Load.work, hfresh, if_true]

/-- A run that fails leaves the data as they were. -/
theorem data_of_commit_error {e e' : Engine} {l : Load} {err : RunError}
    (h : e.commit l = (.error err, e')) : e'.site.store.data = e.site.store.data := by
  rw [commit_eq] at h
  cases ho : e.site.outages.onTransaction with
  | some t =>
    rw [ho] at h
    cases t with
    | error err' =>
      cases h
      rfl
    | breakdown text =>
      cases h
      rfl
  | none =>
    rw [ho] at h
    obtain ⟨hresult, rfl⟩ := Prod.mk.inj h
    obtain ⟨a, ha⟩ := runResult_eq_error hresult
    exact Store.data_of_transaction_error ha

theorem onTransaction_of_commit {e e' : Engine} {l : Load} {sum : RunSummary}
    (h : e.commit l = (.ok sum, e')) : e.site.outages.onTransaction = none := by
  rw [commit_eq] at h
  rcases ho : e.site.outages.onTransaction with _ | err | text
  · rfl
  · rw [ho] at h
    cases h
  · rw [ho] at h
    cases h

/-- A load that can be posted is committed, unless the store is told to fail. -/
theorem commit_of_post {e : Engine} {l : Load} {sum : RunSummary} {d : StoreData}
    (ho : e.site.outages.onTransaction = none) (hf : e.site.store.faults.batchesLeft = none)
    (h : l.post e.service.settings.window e.site.store.data = .ok (sum, d)) :
    ∃ e', e.commit l = (.ok sum, e') ∧ e'.site.store.data = d ∧
      e'.site.store.faults.batchesLeft = none := by
  have hdone : (e.outcome l).result = .ok sum ∧ (e.outcome l).store.data = d ∧
      (e.outcome l).store.faults.batchesLeft = none := by
    unfold Load.post at h
    unfold outcome Load.work
    cases hfresh : l.fresh
    · simp only [hfresh, Bool.false_eq_true, if_false] at h ⊢
      exact Store.transaction_of_update _ _ hf h
    · simp only [hfresh, if_true] at h ⊢
      exact Store.transaction_of_rebuild _ _ hf h
  refine ⟨(e.withStore (e.outcome l).store).warn (e.outcome l).workspace.warnings, ?_, hdone.2⟩
  rw [commit_eq, ho, hdone.1]
  rfl

/-! ### Loads -/

/-- What a run is going to do, and the service that has read the registry for it. -/
def load (e : Engine) (kind : TaskKind) : Except RunError Load × Engine :=
  match e.begin kind with
  | (.error err, e) => (.error err, e)
  | (.ok r, e) => (e.gather r, e)

theorem perform_eq_load (e : Engine) (kind : TaskKind) :
    e.perform kind =
      match e.load kind with
      | (.error err, e) => (.error err, e)
      | (.ok l, e) => e.commit l := by
  rw [perform_eq_stages]
  unfold load
  rcases e.begin kind with ⟨r, e'⟩
  cases r with
  | error err => rfl
  | ok r =>
    simp only
    cases e'.gather r with
    | error err => rfl
    | ok l => rfl

variable {e e' : Engine} {kind : TaskKind} {l : Load} {sum : RunSummary} {d : StoreData}

/-- Until its transaction a run changes nothing but the registry. -/
theorem load_frame {r : Except RunError Load} (h : e.load kind = (r, e')) :
    e'.site = e.site ∧ e'.service.settings = e.service.settings := by
  unfold load at h
  rcases hb : e.begin kind with ⟨request, e₁⟩
  obtain ⟨hsite, registry, hservice, _⟩ := begin_frame hb
  have hsettings : e₁.service.settings = e.service.settings := by rw [hservice]
  rw [hb] at h
  cases request with
  | error err =>
    cases h
    exact ⟨hsite, hsettings⟩
  | ok request =>
    cases h
    exact ⟨hsite, hsettings⟩

/-- A run works with the registry that its service has when the page has come. -/
theorem registry_of_loaded (h : e.load kind = (.ok l, e')) :
    l.registry = e'.service.registry := by
  unfold load at h
  rcases hb : e.begin kind with ⟨request, e₁⟩
  rw [hb] at h
  cases request with
  | error err => cases h
  | ok request =>
    obtain ⟨hg, rfl⟩ := Prod.mk.inj h
    obtain ⟨page, _, rfl⟩ := gather_eq_ok hg
    cases request with
    | all registry => exact (of_begin hb).2.2.symm
    | since mark => rfl

/-- A reset is from scratch, with the registry that it has read. Any other run is not, and changes
nothing before its transaction. -/
theorem kind_of_loaded (h : e.load kind = (.ok l, e')) :
    kind = .reset ∧ l.fresh = true ∧
        (e.site.readRegistry e.service.settings.mapping).1 = .ok l.registry ∨
      kind = .incremental ∧ l.fresh = false ∧ e' = e := by
  unfold load at h
  rcases hb : e.begin kind with ⟨request, e₁⟩
  rw [hb] at h
  cases request with
  | error err => cases h
  | ok request =>
    obtain ⟨hg, rfl⟩ := Prod.mk.inj h
    obtain ⟨page, _, rfl⟩ := gather_eq_ok hg
    cases request with
    | all registry =>
      obtain ⟨hkind, hread, _⟩ := of_begin hb
      exact .inl ⟨hkind, rfl, hread⟩
    | since mark =>
      obtain ⟨hkind, _, hsame⟩ := of_begin hb
      exact .inr ⟨hkind, rfl, hsame⟩

/-- After its first stage a run leaves the service as it is. -/
theorem service_of_perform (e : Engine) (kind : TaskKind) :
    (e.perform kind).2.service = (e.begin kind).2.service := by
  rw [perform_eq_stages]
  rcases e.begin kind with ⟨request, e₁⟩
  cases request with
  | error err => rfl
  | ok request =>
    cases hg : e₁.gather request with
    | error err => simp only [hg]
    | ok l =>
      simp only [hg]
      exact (commit_frame (Prod.ext rfl rfl)).1

/-- The registry after a run of this kind, whether it completes or not: a reset leaves the one that it
has read. -/
def reread (e : Engine) : TaskKind → Registry
  | .reset =>
    (e.site.readRegistry e.service.settings.mapping).1.toOption.getD e.service.registry
  | .incremental => e.service.registry

theorem registry_of_perform (e : Engine) (kind : TaskKind) :
    (e.perform kind).2.service.registry = e.reread kind := by
  rw [service_of_perform]
  cases kind with
  | reset =>
    unfold begin reread
    rw [reload_eq]
    rcases e.site.readRegistry e.service.settings.mapping with ⟨read, ws⟩
    cases read with
    | error err => rfl
    | ok registry => rfl
  | incremental =>
    unfold begin
    cases e.lastRun with
    | error err => rfl
    | ok mark => rfl

/-- A run that completes has posted its load. -/
theorem posted_of_perform (h : e.perform kind = (.ok sum, e')) :
    ∃ l e₁, e.load kind = (.ok l, e₁) ∧ l.registry = e'.service.registry ∧
      l.post e.service.settings.window e.site.store.data = .ok (sum, e'.site.store.data) := by
  rw [perform_eq_load] at h
  rcases hl : e.load kind with ⟨load, e₁⟩
  obtain ⟨hsite, hsettings⟩ := load_frame hl
  rw [hl] at h
  cases load with
  | error err => cases h
  | ok l =>
    refine ⟨l, e₁, rfl, ?_, ?_⟩
    · rw [registry_of_loaded hl, (commit_frame h).1]
    · rw [← hsite, ← hsettings]
      exact of_commit h

/-- A run that fails leaves the data as they are. -/
theorem data_of_perform_error {err : RunError} (h : e.perform kind = (.error err, e')) :
    e'.site.store.data = e.site.store.data := by
  rw [perform_eq_load] at h
  rcases hl : e.load kind with ⟨load, e₁⟩
  obtain ⟨hsite, _⟩ := load_frame hl
  rw [hl] at h
  cases load with
  | error err =>
    cases h
    rw [hsite]
  | ok l => rw [data_of_commit_error h, hsite]

/-- A run posts a load, or leaves the data as they are. -/
theorem data_of_perform {r : Except RunError RunSummary} (h : e.perform kind = (r, e')) :
    e'.service.settings = e.service.settings ∧
      (e'.site.store.data = e.site.store.data ∨
        ∃ (l : Load) (sum : RunSummary),
          l.post e.service.settings.window e.site.store.data =
            .ok (sum, e'.site.store.data)) := by
  constructor
  · have hservice := service_of_perform e kind
    rcases hb : e.begin kind with ⟨request, e₁⟩
    obtain ⟨_, registry, hbegun, _⟩ := begin_frame hb
    have hafter : e'.service = e₁.service := by
      rw [h, hb] at hservice
      exact hservice
    rw [hafter, hbegun]
  · cases r with
    | error err => exact .inl (data_of_perform_error h)
    | ok sum =>
      obtain ⟨l, _, _, _, hpost⟩ := posted_of_perform h
      exact .inr ⟨l, sum, hpost⟩

/-- A transaction is committed if and only if its load can be posted. -/
theorem commit_iff (ho : e.site.outages.onTransaction = none)
    (hf : e.site.store.faults.batchesLeft = none) :
    (e.commit l).1 = .ok sum ∧ (e.commit l).2.site.store.data = d ↔
      l.post e.service.settings.window e.site.store.data = .ok (sum, d) := by
  constructor
  · rintro ⟨hsum, hdata⟩
    rcases hc : e.commit l with ⟨r, e'⟩
    rw [hc] at hsum hdata
    cases hsum
    cases hdata
    exact of_commit hc
  · intro hpost
    obtain ⟨e', hc, hdata, _⟩ := commit_of_post ho hf hpost
    rw [hc]
    exact ⟨rfl, hdata⟩

/-- A run completes if and only if its load can be posted and its transaction meets no trouble. -/
theorem perform_iff (hl : e.load kind = (.ok l, e'))
    (hf : e.site.store.faults.batchesLeft = none) :
    (e.perform kind).1 = .ok sum ∧ (e.perform kind).2.site.store.data = d ↔
      e.site.outages.onTransaction = none ∧
        l.post e.service.settings.window e.site.store.data = .ok (sum, d) := by
  obtain ⟨hsite, hsettings⟩ := load_frame hl
  have hperform : e.perform kind = e'.commit l := by
    rw [perform_eq_load, hl]
  rw [hperform, ← hsite, ← hsettings]
  rw [← hsite] at hf
  constructor
  · intro h
    have ho : e'.site.outages.onTransaction = none :=
      onTransaction_of_commit (Prod.ext h.1 rfl)
    exact ⟨ho, (commit_iff ho hf).1 h⟩
  · rintro ⟨ho, hpost⟩
    exact (commit_iff ho hf).2 hpost

end Engine

end PinLedger
