import PinLedger.Proofs.Reconcile.Records
import PinLedger.Proofs.Service.Arrivals
import PinLedger.Proofs.Store.Hulls

/-!
# PinLedger.Proofs.Service.Windows

The two windows of a record always meet. Between the runs of a service anything may change, the
registry, the tables and the feed as well; as long as the window stays and nobody else writes
records, the first and the current time of a record are never more than a window apart.

* `ViewTable.Close` — the two times of every record are close together
* `Turn`, `Engine.turns` — histories of a service in a changing world
* `windows_meet` — the invariant, and what it means for the hull
* `pinned_outside_windows` — a pinned row that lies in neither window
-/

namespace PinLedger

/-- The two times of every record are at most a window apart. -/
def ViewTable.Close (w : Window) (t : ViewTable) : Prop :=
  ∀ r ∈ t.toList, w.overlaps r.timeOriginal r.timeMain = true

variable {reg : Registry} {w : Window} {g g' : Ledger} {v : ParsedView} {p : Plan}

theorem close_empty (w : Window) : ViewTable.empty.Close w := by
  intro r hr
  cases hr

theorem close_post (hg : g.data.views.Close w) (h : g.post reg w v = .ok (p, g')) :
    g'.data.views.Close w := by
  obtain ⟨hplan, d, hpins, hdata, _, _⟩ := Ledger.post_eq_ok h
  intro r hr
  have hr' : r ∈ ((nextStatement w (g.data.views.find? v.id) v).toList.foldl ViewTable.apply
      g.data.views).toList := by
    rw [hdata, views_applyPins hpins, statement_of_plan hplan] at hr
    exact hr
  rcases mem_nextStatement hr' with hnext | hold
  · exact overlaps_nextRecord (fun r₀ hr₀ => hg r₀ (ViewTable.mem_of_find? hr₀)) hnext
  · exact hg r hold

/-- A run keeps the times close, and one from scratch starts without records. -/
theorem close_load {l : Load} {d d' : StoreData} {sum : RunSummary} (hd : d.views.Close w)
    (h : l.post w d = .ok (sum, d')) : d'.views.Close w := by
  rw [Load.post_eq] at h
  obtain ⟨k, hstart, hrun⟩ := bind_eq_ok.1 h
  have hk : k.data.views.Close w := by
    unfold Load.start at hstart
    cases hfresh : l.fresh
    · rw [hfresh] at hstart
      cases hstart
      exact hd
    · rw [hfresh] at hstart
      obtain ⟨k₁, _, rfl⟩ := map_eq_ok.1 hstart
      exact close_empty w
  exact Ledger.keeps_run (P := fun d => d.views.Close w) close_post (fun _ hd => hd) hk hrun

/-! ### Histories -/

/-- What may happen to a service and its records. -/
inductive Turn where
  /-- Somebody asks for a run. -/
  | start (kind : TaskKind)
  /-- The worker does a job. -/
  | work
  /-- Everything but the window and the records becomes what it is in `other`. -/
  | upheaval (other : Engine)

namespace Engine

/-- The engine `other` with the window and the records of `e`. -/
def transplant (e other : Engine) : Engine where
  service := { other.service with
    settings := { other.service.settings with window := e.service.settings.window } }
  site := { other.site with
    store := { other.site.store with
      data := { other.site.store.data with views := e.site.store.data.views } } }
  log := other.log

def turn (e : Engine) : Turn → Engine
  | .start kind => (e.start kind).2
  | .work => e.work
  | .upheaval other => e.transplant other

/-- The engine after a history. -/
def turns (e : Engine) (history : List Turn) : Engine := history.foldl turn e

variable {e : Engine}

theorem close_runJob (h : e.site.store.data.views.Close e.service.settings.window) (job : Job) :
    (e.runJob job).service.settings = e.service.settings ∧
      (e.runJob job).site.store.data.views.Close e.service.settings.window := by
  rcases hp : e.perform job.kind with ⟨r, e'⟩
  have hcore := core_runJob e job
  rw [hp] at hcore
  obtain ⟨hsettings', _, _, hdata'⟩ := Core.mk.inj hcore
  obtain ⟨hsettings, hdata⟩ := data_of_perform hp
  rw [hsettings', hdata']
  refine ⟨hsettings, ?_⟩
  rcases hdata with hsame | ⟨l, sum, hpost⟩
  · rw [hsame]
    exact h
  · exact close_load h hpost

theorem close_turn (h : e.site.store.data.views.Close e.service.settings.window) (x : Turn) :
    (e.turn x).service.settings.window = e.service.settings.window ∧
      (e.turn x).site.store.data.views.Close e.service.settings.window := by
  cases x with
  | start kind =>
    have hcore := Core.mk.inj (core_start e kind)
    simp only [turn]
    rw [hcore.1, hcore.2.2.2]
    exact ⟨rfl, h⟩
  | work =>
    simp only [turn]
    unfold Engine.work
    cases e.service.jobs with
    | nil => exact ⟨rfl, h⟩
    | cons job rest =>
      obtain ⟨hsettings, hclose⟩ :=
        close_runJob (e := { e with service := { e.service with jobs := rest } }) h job
      exact ⟨congrArg RunSettings.window hsettings, hclose⟩
  | upheaval other => exact ⟨rfl, h⟩

theorem close_turns (h : e.site.store.data.views.Close e.service.settings.window)
    (history : List Turn) :
    (e.turns history).site.store.data.views.Close e.service.settings.window := by
  induction history generalizing e with
  | nil => exact h
  | cons x history ih =>
    obtain ⟨hwindow, hclose⟩ := close_turn h x
    rw [← hwindow] at hclose ⊢
    exact ih hclose

/-- **The windows of a record meet.** A service starts without records. After any history the two
times of every record are at most a window apart; outside of leap seconds, and where the windows do
not leave the calendar, that is to say that the windows share an instant. The hull of such two times
is at most two windows long and has no gap: what it holds lies in one of the windows. So does every
row that is pinned for them, but for the rows to which the bounds of the hull are snapped. -/
theorem windows_meet (hviews : e.site.store.data.views = .empty) (history : List Turn) :
    (∀ r ∈ (e.turns history).site.store.data.views.toList,
      e.service.settings.window.overlaps r.timeOriginal r.timeMain = true) ∧
    ∀ (o m : Instant) (ro rm : TimeRange), o.isLeap = false → m.isLeap = false →
      e.service.settings.window.around? o = some ro →
      e.service.settings.window.around? m = some rm →
      (e.service.settings.window.overlaps o m = true ↔ ro.Overlaps rm) ∧
        (e.service.settings.window.overlaps o m = true →
          ∃ raw, e.service.settings.window.hull? o m = some raw ∧
            e.service.settings.window.Joined o m ro rm raw) := by
  constructor
  · refine close_turns ?_ history
    rw [hviews]
    exact close_empty _
  · intro o m ro rm ho hm hro hrm
    have hco := Window.covers_of_around ho hro
    have hcm := Window.covers_of_around hm hrm
    have hiff := Window.overlaps_iff_overlaps hco hcm
    exact ⟨hiff, fun hclose => Window.exists_joined hco hcm (hiff.1 hclose)⟩

end Engine

/-! The view of half past three moves on by a quarter of an hour, with windows of twenty minutes. -/

/-- The host with a feed that tells one view. -/
def told (v : RawView) : Turn :=
  .upheaval { host with site := { terrace with feed := { views := [v] } } }

def stroll : List Turn :=
  [told (guest false 40), .start .incremental, .work,
   told { guest false 41 with
    preference :=
      "\x7b\"layers\":[\x7b\"id\":\"stars\"\x7d]," ++
      "\"time\":\x7b\"mode\":\"absolute\",\"value\":\"2025-03-20T15:45:00Z\"\x7d\x7d" },
   .start .incremental, .work]

theorem windows_meet_stroll :
    ∃ r, (host.turns stroll).site.store.data.views.toList = [r] ∧
      r.timeOriginal = pastThree 30 ∧ r.timeMain = pastThree 45 ∧
      ∃ ro rm raw, brief.window.around? (pastThree 30) = some ro ∧
        brief.window.around? (pastThree 45) = some rm ∧ ro.Overlaps rm ∧
        brief.window.hull? (pastThree 30) (pastThree 45) = some raw ∧
        brief.window.Joined (pastThree 30) (pastThree 45) ro rm raw := by
  have hlist : ((host.turns stroll).site.store.data.views.toList.map fun r =>
      (r.timeOriginal, r.timeMain)) = [(pastThree 30, pastThree 45)] := by decide +kernel
  obtain ⟨r, hr, htimes⟩ := List.map_eq_singleton_iff.1 hlist
  obtain ⟨ho, hm⟩ := Prod.mk.inj htimes
  obtain ⟨hclose, hwindows⟩ := Engine.windows_meet (e := host) rfl stroll
  have hnear := hclose r (hr ▸ List.mem_cons_self)
  have hro : brief.window.around? (pastThree 30) =
      some (.between (pastThree 20) (pastThree 40)) := by decide
  have hrm : brief.window.around? (pastThree 45) =
      some (.between (pastThree 35) (pastThree 55)) := by decide
  obtain ⟨hiff, hhull⟩ := hwindows _ _ _ _ (by decide) (by decide) hro hrm
  rw [ho, hm] at hnear
  obtain ⟨raw, hraw, hjoined⟩ := hhull hnear
  exact ⟨r, hr, ho, hm, _, _, raw, hro, hrm, hiff.1 hnear, hraw, hjoined⟩

/-- The only row of the table, at ten past three, is pinned for a view of half past three, whose
window begins at twenty past. -/
theorem pinned_outside_windows :
    let e := host.turns [told (guest false 40), .start .incremental, .work]
    e.site.store.data.tables.find? "obs" = some ⟨"time", [⟨pastThree 10, 1⟩]⟩ ∧
      ∃ r range, e.site.store.data.views.toList = [r] ∧
        brief.window.around? r.timeOriginal = some range ∧
        brief.window.around? r.timeMain = some range ∧ pastThree 10 ∉ range := by
  have hlist : ((host.turns [told (guest false 40), .start .incremental,
      .work]).site.store.data.views.toList.map fun r =>
        (r.timeOriginal, r.timeMain)) = [(pastThree 30, pastThree 30)] := by decide +kernel
  obtain ⟨r, hr, htimes⟩ := List.map_eq_singleton_iff.1 hlist
  obtain ⟨ho, hm⟩ := Prod.mk.inj htimes
  have hrange : brief.window.around? (pastThree 30) =
      some (.between (pastThree 20) (pastThree 40)) := by decide
  refine ⟨by decide +kernel, r, .between (pastThree 20) (pastThree 40), hr, ?_, ?_, by decide⟩
  · rw [ho]
    exact hrange
  · rw [hm]
    exact hrange

end PinLedger
