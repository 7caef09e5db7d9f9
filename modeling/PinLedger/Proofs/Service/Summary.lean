import Mathlib.Data.List.Dedup
import PinLedger.Proofs.Feed.Latest
import PinLedger.Proofs.Feed.Memory
import PinLedger.Proofs.Service.Verdict

/-!
# PinLedger.Proofs.Service.Summary

The summary of a run adds up. Its numbers are those of the page that was fetched, of the plans that
were carried out, and of what the data hold before and after the run.

* `counts_of_plan`, `counts_of_executed` — what one plan counts, and what plans in a row count
* `Instant.IsLatest` — the latest of some instants, none only if there are none
* `Engine.AddsUp` — a summary beside its page, its plans and the data
* `markKept_across` — no history without a reset lowers the watermark
* `summary_adds_up` — every run that completes has a summary that adds up
-/

namespace PinLedger

/-! ### Counting views -/

namespace RunSummary

/-- All views of which the case has been counted. -/
def classified (s : RunSummary) : Nat :=
  s.created + s.updated + s.disabled + s.unchanged + s.ignored

/-- What one more view counts. -/
theorem counts_record (s : RunSummary) (case : ReconcileCase) :
    (s.record case).viewsSeen = s.viewsSeen + 1 ∧
      (s.record case).classified = s.classified + 1 ∧
      (s.record case).created = s.created + (if case = .created then 1 else 0) ∧
      (s.record case).disabled = s.disabled + (if case = .disabled then 1 else 0) ∧
      (s.record case).ignored = s.ignored + (if case = .ignored then 1 else 0) := by
  unfold classified
  cases case <;> simp [record] <;> omega

end RunSummary

namespace ViewTable

def size (t : ViewTable) : Nat := t.toList.length

theorem size_eq_total (t : ViewTable) : t.size = t.total fun _ => 1 := by
  simp [size, total, List.map_const']

theorem size_put (t : ViewTable) (r : ViewRecord) :
    (t.put r).size = t.size + (if t.contains r.id then 0 else 1) := by
  have h := t.total_put (fun _ => 1) r
  rw [← size_eq_total, ← size_eq_total] at h
  unfold contains
  cases hfind : t.find? r.id with
  | none =>
    rw [hfind] at h
    simpa using h
  | some s =>
    rw [hfind] at h
    simpa using h

theorem size_erase (t : ViewTable) (id : Int) :
    (t.erase id).size + (if t.contains id then 1 else 0) = t.size := by
  have h := t.total_erase (fun _ => 1) id
  rw [← size_eq_total, ← size_eq_total] at h
  unfold contains
  cases hfind : t.find? id with
  | none =>
    rw [hfind] at h
    simpa using h
  | some s =>
    rw [hfind] at h
    simpa using h

end ViewTable

variable {reg : Registry} {w : Window} {d d' : StoreData} {v : ParsedView} {p : Plan}

theorem case_of_classifyUpdate (w : Window) (r : ViewRecord) (v : ParsedView) :
    classifyUpdate w r v ≠ .created ∧ classifyUpdate w r v ≠ .disabled ∧
      classifyUpdate w r v ≠ .ignored := by
  unfold classifyUpdate
  split
  · split
    · simp
    · simp
  · split
    · simp
    · simp

/-- The plan of a view changes one record unless the view is ignored. A creation adds one, and a
disabled view takes one away. -/
theorem counts_of_plan {lookup : RowLookup} {t : ViewTable}
    (h : planDirect lookup reg w (t.find? v.id) v = .ok p) :
    p.statement.toList.length + (if p.case = .ignored then 1 else 0) = 1 ∧
      (p.statement.toList.foldl ViewTable.apply t).size + (if p.case = .disabled then 1 else 0) =
        t.size + (if p.case = .created then 1 else 0) := by
  rw [case_of_plan h, statement_of_plan h]
  unfold nextStatement classify
  cases hfind : t.find? v.id with
  | none =>
    cases v.disabled with
    | true => exact ⟨rfl, rfl⟩
    | false =>
      refine ⟨rfl, ?_⟩
      have hsize := t.size_put v.freshRecord
      have hnew : t.contains v.freshRecord.id = false := by
        unfold ViewTable.contains ParsedView.freshRecord
        rw [hfind]
        rfl
      rw [hnew] at hsize
      exact hsize
  | some r =>
    have hid := ViewTable.id_of_find? hfind
    have hold : t.contains r.id = true := by
      unfold ViewTable.contains
      rw [hid, hfind]
      rfl
    cases v.disabled with
    | true =>
      refine ⟨rfl, ?_⟩
      have hsize := t.size_erase r.id
      rw [hold] at hsize
      exact hsize
    | false =>
      obtain ⟨hcreated, hdisabled, hignored⟩ := case_of_classifyUpdate w r v
      have hupdated : t.contains (updatedRecord r v (classifyUpdate w r v)).id = true := hold
      have hsize := t.size_put (updatedRecord r v (classifyUpdate w r v))
      simp only [if_neg hcreated, if_neg hdisabled, if_neg hignored]
      refine ⟨rfl, ?_⟩
      rw [hupdated] at hsize
      simp only [Option.toList_some, List.foldl_cons, List.foldl_nil, ViewTable.apply, hupdated,
        if_true]
      exact hsize

/-- What plans that are carried out one after another add to a summary. -/
theorem counts_of_executed {views : List ParsedView} {plans : List Plan}
    (h : Executed reg w d views plans d') (s : RunSummary) :
    let s' := plans.foldl (fun (s : RunSummary) p => s.record p.case) s
    s'.viewsSeen = s.viewsSeen + views.length ∧
      s'.classified = s.classified + views.length ∧
      s'.ignored + (viewStatements plans).length = s.ignored + views.length ∧
      d'.views.size + s'.disabled + s.created = d.views.size + s'.created + s.disabled := by
  induction h generalizing s with
  | nil d => exact ⟨rfl, rfl, rfl, Nat.add_right_comm _ _ _⟩
  | @cons d d₁ d' v views p plans hplan hpins hrest ih =>
    intro s'
    obtain ⟨hseen, hclassified, hignored, hsize⟩ := ih (s.record p.case)
    obtain ⟨hseen₁, hclassified₁, hcreated₁, hdisabled₁, hignored₁⟩ := s.counts_record p.case
    rw [plan_eq_planDirect] at hplan
    obtain ⟨hone, hstep⟩ := counts_of_plan hplan
    have hviews : d₁.views = d.views := views_applyPins hpins
    rw [hviews] at hsize
    simp only at hsize hignored
    rw [hseen₁] at hseen
    rw [hclassified₁] at hclassified
    have hstatements : (viewStatements (p :: plans)).length =
        p.statement.toList.length + (viewStatements plans).length := by
      simp only [viewStatements, List.flatMap_cons, List.length_append]
    rw [hstatements, List.length_cons]
    refine ⟨?_, ?_, ?_, ?_⟩
    · exact hseen.trans (by omega)
    · exact hclassified.trans (by omega)
    · show (plans.foldl (fun (s : RunSummary) p => s.record p.case) (s.record p.case)).ignored +
        _ = _
      omega
    · show d'.views.size +
        (plans.foldl (fun (s : RunSummary) p => s.record p.case) (s.record p.case)).disabled + _ =
        d.views.size +
        (plans.foldl (fun (s : RunSummary) p => s.record p.case) (s.record p.case)).created + _
      omega

/-! ### Tables -/

/-- The tables of all bindings, with repetitions. -/
def Registry.boundTables (reg : Registry) : List String :=
  reg.bindings.values.flatten.map (·.column.table)

/-- A registry lists each of its tables once. -/
theorem Registry.length_tables (reg : Registry) :
    reg.tables.length = reg.boundTables.dedup.length := by
  have hnodup : reg.tables.Nodup := by
    refine reg.tableSet.increasing.imp ?_
    rintro a b hlt rfl
    exact String.lt_irrefl a hlt
  have hmem : ∀ name, name ∈ reg.tables ↔ name ∈ reg.boundTables.dedup := by
    intro name
    rw [List.mem_dedup]
    exact NameSet.mem_ofList
  exact ((List.perm_ext_iff_of_nodup hnodup (List.nodup_dedup _)).2 hmem).length_eq

/-! ### Watermarks -/

/-- The latest of the instants of which `P` holds. There is none only if there are none. -/
def Instant.IsLatest (P : Instant → Prop) : Option Instant → Prop
  | none => ∀ t, ¬ P t
  | some m => P m ∧ ∀ t, P t → t ≤ m

theorem isLatest_latestUpdate (page : List RawView) :
    Instant.IsLatest (fun t => ∃ raw ∈ page, raw.lastUpdate = some t) (latestUpdate page) := by
  cases h : latestUpdate page with
  | none =>
    rintro t ⟨raw, hraw, ht⟩
    obtain ⟨m, hm, _⟩ := le_latestUpdate hraw ht
    rw [h] at hm
    cases hm
  | some m =>
    refine ⟨mem_of_latestUpdate h, ?_⟩
    rintro t ⟨raw, hraw, ht⟩
    obtain ⟨m', hm', hle⟩ := le_latestUpdate hraw ht
    rw [h] at hm'
    cases hm'
    exact hle

theorem isLatest_laterMark {P : Instant → Prop} {latest : Option Instant}
    (h : Instant.IsLatest P latest) (mark : Option Instant) :
    Instant.IsLatest (fun t => mark = some t ∨ P t) (Engine.laterMark mark latest) := by
  cases mark with
  | none =>
    cases latest with
    | none => exact fun t ht => ht.elim nofun (h t)
    | some m => exact ⟨.inr h.1, fun t ht => ht.elim nofun (h.2 t)⟩
  | some a =>
    cases latest with
    | none =>
      refine ⟨.inl rfl, ?_⟩
      rintro t (ht | ht)
      · cases ht
        exact Instant.le_refl a
      · exact absurd ht (h t)
    | some m =>
      constructor
      · rcases Instant.latest_eq a m with heq | heq
        · exact .inl (congrArg some heq.symm)
        · right
          rw [heq]
          exact h.1
      · rintro t (ht | ht)
        · cases ht
          exact Instant.le_latest_left a m
        · exact Instant.le_trans (h.2 t ht) (Instant.le_latest_right a m)

/-- The later watermark is no earlier, and there is one if there was one. -/
def MarkKept (before after : Option Instant) : Prop :=
  ∀ t, before = some t → ∃ t', after = some t' ∧ t ≤ t'

theorem MarkKept.refl (mark : Option Instant) : MarkKept mark mark :=
  fun t ht => ⟨t, ht, Instant.le_refl t⟩

theorem MarkKept.trans {a b c : Option Instant} (h : MarkKept a b) (h' : MarkKept b c) :
    MarkKept a c := by
  intro t ht
  obtain ⟨t₁, ht₁, hle⟩ := h t ht
  obtain ⟨t₂, ht₂, hle'⟩ := h' t₁ ht₁
  exact ⟨t₂, ht₂, Instant.le_trans hle hle'⟩

theorem Instant.IsLatest.markKept {P : Instant → Prop} {before after : Option Instant}
    (h : IsLatest P after) (hP : ∀ t, before = some t → P t) : MarkKept before after := by
  intro t ht
  cases after with
  | none => exact absurd (hP t ht) (h t)
  | some m => exact ⟨m, rfl, h.2 t (hP t ht)⟩

/-- Plans leave the watermark alone. -/
theorem Executed.lastRun {views : List ParsedView} {plans : List Plan}
    (h : Executed reg w d views plans d') : d'.lastRun = d.lastRun := by
  induction h with
  | nil d => rfl
  | @cons d d₁ d' v views p plans hplan hpins hrest ih =>
    have hlast : d₁.lastRun = d.lastRun := lastRun_applyPins hpins
    exact ih.trans hlast

namespace Load

variable {l : Load} {plans : List Plan}

/-- The watermark of a run is stored, if there is one. -/
theorem Executes.lastRun (h : l.Executes w plans d d') :
    d'.lastRun = l.watermark.or d.lastRun := by
  obtain ⟨d₁, d₂, hresets, hexecuted, rfl⟩ := h.run
  have hlast : d₁.lastRun = d.lastRun := lastRun_applyPins hresets
  cases l.watermark with
  | none => exact hexecuted.lastRun.trans hlast
  | some t => rfl

/-- The statements that a run has appended to the log, as many as it has counted. -/
theorem Executes.appended (h : l.Executes w plans d d') :
    d'.pinLog = d.pinLog ++ (l.resets ++ pinStatements plans) ∧
      (l.resets ++ pinStatements plans).length =
        (if l.fresh then l.registry.boundTables.dedup.length else 0) +
          (plans.map (·.operations.length)).sum := by
  refine ⟨h.log.trans (List.append_assoc _ _ _), ?_⟩
  have hops : (pinStatements plans).length = (plans.map (·.operations.length)).sum := by
    rw [pinStatements, List.length_map, List.length_flatMap]
  rw [List.length_append, hops, resets]
  split
  · rw [List.length_map, Registry.length_tables]
  · rfl

/-- The views of a run, counted by their cases, by their statements and by their records. -/
theorem Executes.counts (h : l.Executes w plans d d') :
    let s := plans.foldl (fun (s : RunSummary) p => s.record p.case) {}
    s.viewsSeen = l.views.length ∧ s.classified = l.views.length ∧
      s.ignored + (viewStatements plans).length = l.views.length ∧
      d'.views.size + s.disabled = (if l.fresh then 0 else d.views.size) + s.created := by
  intro s
  obtain ⟨d₁, d₂, hresets, hexecuted, rfl⟩ := h.run
  obtain ⟨hseen, hclassified, hignored, hsize⟩ := counts_of_executed hexecuted {}
  have hviews : (l.watermark.elim d₂ fun t => { d₂ with lastRun := some t }).views = d₂.views := by
    cases l.watermark with
    | none => rfl
    | some t => rfl
  have hold : d₁.views = d.views := views_applyPins hresets
  have hstart : ViewTable.size (if l.fresh then .empty else d₁.views) =
      if l.fresh then 0 else d.views.size := by
    rw [hold]
    split
    · rfl
    · rfl
  simp only [hstart] at hsize
  rw [hviews]
  refine ⟨hseen.trans (Nat.zero_add _), hclassified.trans (Nat.zero_add _),
    hignored.trans (Nat.zero_add _), hsize⟩

end Load

/-! ### Runs -/

namespace Engine

/-- A summary of a run of this kind beside the page that it has fetched, the registry that it has
worked with, the plans that it has carried out, and the data before and after it. -/
structure AddsUp (sum : RunSummary) (kind : TaskKind) (page : List RawView) (reg : Registry)
    (plans : List Plan) (d d' : StoreData) : Prop where
  seen : sum.viewsSeen = page.length
  cases : sum.viewsSeen =
    sum.created + sum.updated + sum.disabled + sum.unchanged + sum.ignored
  statements : sum.viewStatements = sum.viewsSeen - sum.ignored
  appended : ∃ added, d'.pinLog = d.pinLog ++ added ∧ added.length = sum.pinStatements
  operations : sum.pinStatements =
    (if kind = .reset then reg.boundTables.dedup.length else 0) +
      (plans.map (·.operations.length)).sum
  /-- No record is added or taken away that is not counted. -/
  records : d'.views.size + sum.disabled =
    (if kind = .reset then 0 else d.views.size) + sum.created
  watermark : kind = .incremental → sum.watermark = d'.lastRun ∧
    Instant.IsLatest (fun t => d.lastRun = some t ∨ ∃ raw ∈ page, raw.lastUpdate = some t)
      d'.lastRun

variable {e e' : Engine} {kind : TaskKind} {l : Load} {sum : RunSummary} {history : List Change}

/-- The page of which a run is going to carry out the views, and what its watermark is. -/
theorem Loads.page (h : e.Loads kind l) :
    ∃ page, e.site.feed.fetch (if e.site.feedGivesAll ∨ kind = .reset then none
        else e.site.store.data.lastRun) = .ok page ∧
      page.mapM RawView.parse = .ok l.views ∧ (l.fresh = true ↔ kind = .reset) ∧
      (kind = .incremental →
        l.watermark = laterMark e.site.store.data.lastRun (latestUpdate page)) := by
  cases h with
  | reset hread hfetch =>
    obtain ⟨page, hpage, hviews, _⟩ := Site.fetch_eq_ok hfetch
    refine ⟨page, ?_, hviews, by simp, nofun⟩
    simpa using hpage
  | incremental hfetch =>
    obtain ⟨page, hpage, hviews, hlatest⟩ := Site.fetch_eq_ok hfetch
    refine ⟨page, ?_, hviews, by simp, fun _ => ?_⟩
    · simpa using hpage
    · rw [hlatest]

/-- The watermark after a run that is not from scratch is the latest of the former one and of the
updates that its page tells. -/
theorem Loads.isLatest {page : List RawView} {plans : List Plan}
    (hmark : l.watermark = laterMark d.lastRun (latestUpdate page))
    (h : l.Executes w plans d d') :
    l.watermark = d'.lastRun ∧
      Instant.IsLatest (fun t => d.lastRun = some t ∨ ∃ raw ∈ page, raw.lastUpdate = some t)
        d'.lastRun := by
  have hlatest := isLatest_laterMark (isLatest_latestUpdate page) d.lastRun
  rw [← hmark] at hlatest
  have hstored : l.watermark = d'.lastRun := by
    rw [h.lastRun]
    cases hw : l.watermark with
    | some t => rfl
    | none =>
      rw [hw] at hlatest
      cases hd : d.lastRun with
      | none => rfl
      | some t => exact absurd (.inl hd) (hlatest t)
  rw [← hstored]
  exact ⟨rfl, hlatest⟩

theorem addsUp_of_perform (h : e.perform kind = (.ok sum, e')) :
    ∃ l page plans, e.Loads kind l ∧
      e.site.feed.fetch (if e.site.feedGivesAll ∨ kind = .reset then none
        else e.site.store.data.lastRun) = .ok page ∧
      page.mapM RawView.parse = .ok l.views ∧
      l.Executes e.service.settings.window plans e.site.store.data e'.site.store.data ∧
      AddsUp sum kind page l.registry plans e.site.store.data e'.site.store.data := by
  obtain ⟨l, e₁, hload, _, hpost⟩ := posted_of_perform h
  obtain ⟨hexecutes, hsum⟩ := Load.executes_of_post hpost
  have hloads := loads_of_load hload
  obtain ⟨page, hpage, hviews, hfresh, hmark⟩ := hloads.page
  refine ⟨l, page, _, hloads, hpage, hviews, hexecutes, ?_⟩
  obtain ⟨hseen, hclassified, hignored, hsize⟩ := hexecutes.counts
  obtain ⟨hlog, hlength⟩ := hexecutes.appended
  simp only [hfresh] at hsize hlength
  have hids := congrArg List.length (ids_of_mapM_parse hviews)
  simp only [List.length_map] at hids
  subst hsum
  refine ⟨hseen.trans hids, hseen.trans hclassified.symm, ?_, ⟨_, hlog, rfl⟩, hlength, hsize, ?_⟩
  · simp only
    omega
  · exact fun hkind => Loads.isLatest (hmark hkind) hexecutes

/-! ### Histories -/

theorem mem_jobs_concluded {s : Service} {task : TaskId} {r : Except RunError RunSummary}
    {job : Job} (h : job ∈ (concluded s task r).jobs) : job ∈ s.jobs := by
  rcases r with err | sum
  · rcases err with err | err | err | _
    · exact h
    · exact h
    · cases err with
      | mappingFile path => exact h
      | lookup layer text => exact h
      | breakdown text => cases h
    · exact h
  · exact h

theorem mem_jobs_work {job : Job} (h : job ∈ e.work.service.jobs) : job ∈ e.service.jobs := by
  cases hjobs : e.service.jobs with
  | nil =>
    unfold work at h
    rw [hjobs] at h
    rw [← hjobs]
    exact h
  | cons first rest =>
    rw [work_of_cons hjobs, service_runJob] at h
    have hmem := mem_jobs_concluded h
    rw [(frame_perform _ _).2] at hmem
    have htail : e.dequeue.service.jobs = rest := by
      unfold dequeue
      rw [hjobs]
      rfl
    rw [htail] at hmem
    exact List.mem_cons_of_mem first hmem

/-- No job that waits is a reset. -/
def NoReset (e : Engine) : Prop := ∀ job ∈ e.service.jobs, job.kind = .incremental

theorem NoReset.change (h : e.NoReset) {x : Change} (hx : x ≠ .event (.start .reset)) :
    (e.change x).NoReset := by
  cases x with
  | edit files catalog => exact h
  | event x =>
    cases x with
    | feed f givesAll => exact h
    | faults f => exact h
    | outages o => exact h
    | work => exact fun job hjob => h job (mem_jobs_work hjob)
    | start kind =>
      have hkind : kind = .incremental := by
        cases kind with
        | reset => exact absurd rfl hx
        | incremental => rfl
      intro job hjob
      change job ∈ (e.start kind).2.service.jobs at hjob
      rcases hstart : e.start kind with ⟨r, e'⟩
      rw [hstart] at hjob
      cases r with
      | error refusal =>
        rw [(of_start_error hstart).1] at hjob
        exact h job hjob
      | ok task =>
        obtain ⟨_, session, hservice, _⟩ := of_start_ok hstart
        rw [hservice] at hjob
        rcases List.mem_append.1 hjob with hjob | hjob
        · exact h job hjob
        · rw [List.mem_singleton.1 hjob]
          exact hkind

/-- A run that is not from scratch does not lower the watermark, whether it completes or not. -/
theorem markKept_perform {r : Except RunError RunSummary}
    (h : e.perform .incremental = (r, e')) :
    MarkKept e.site.store.data.lastRun e'.site.store.data.lastRun := by
  cases r with
  | error err =>
    rw [data_of_perform_error h]
    exact .refl _
  | ok sum =>
    obtain ⟨l, page, plans, _, _, _, _, hadds⟩ := addsUp_of_perform h
    exact (hadds.watermark rfl).2.markKept fun t ht => .inl ht

theorem markKept_change (h : e.NoReset) (x : Change) :
    MarkKept e.site.store.data.lastRun (e.change x).site.store.data.lastRun := by
  cases x with
  | edit files catalog => exact .refl _
  | event x =>
    cases x with
    | feed f givesAll => exact .refl _
    | faults f => exact .refl _
    | outages o => exact .refl _
    | start kind =>
      have hdata := (Core.mk.inj (core_start e kind)).2.2.2
      show MarkKept _ (e.start kind).2.site.store.data.lastRun
      rw [hdata]
      exact .refl _
    | work =>
      show MarkKept _ e.work.site.store.data.lastRun
      cases hjobs : e.service.jobs with
      | nil =>
        unfold work
        rw [hjobs]
        exact .refl _
      | cons job rest =>
        have hkind : job.kind = .incremental := h job (hjobs ▸ List.mem_cons_self)
        have hcore := core_work_of_cons hjobs (Prod.ext rfl rfl :
          e.dequeue.perform job.kind = ((e.dequeue.perform job.kind).1, _))
        rw [(Core.mk.inj hcore).2.2.2, hkind]
        exact markKept_perform (e := e.dequeue) (Prod.ext rfl rfl)

/-- By induction on the history: no step takes a reset on, and none lowers the watermark. -/
theorem markKept_across (h : e.NoReset) (hstarts : ∀ x ∈ history, x ≠ .event (.start .reset)) :
    MarkKept e.site.store.data.lastRun (e.across history).site.store.data.lastRun := by
  induction history generalizing e with
  | nil => exact .refl _
  | cons x history ih =>
    have hfirst := hstarts x List.mem_cons_self
    have hrest := ih (h.change hfirst) fun y hy => hstarts y (List.mem_cons_of_mem x hy)
    exact (markKept_change h x).trans hrest

/-- **The summary of a run adds up.** Every run that completes reports as many views as the feed gave
it and its cases come to; a view statement for each view that it does not ignore; as many pin
statements as it has appended to the log, which are one for each table of the registry, if it is a
reset, and the operations of its plans; and as many views created and disabled as the records have
become more and fewer. The watermark of a run that is no reset is the latest of the former watermark
and of the updates that its page tells, and as long as no reset is asked for, none is lowered. -/
theorem summary_adds_up (e : Engine) :
    (∀ kind sum e', e.perform kind = (.ok sum, e') →
      ∃ l page plans, e.Loads kind l ∧
        e.site.feed.fetch (if e.site.feedGivesAll ∨ kind = .reset then none
          else e.site.store.data.lastRun) = .ok page ∧
        page.mapM RawView.parse = .ok l.views ∧
        l.Executes e.service.settings.window plans e.site.store.data e'.site.store.data ∧
        AddsUp sum kind page l.registry plans e.site.store.data e'.site.store.data) ∧
      ∀ history : List Change, e.NoReset → (∀ x ∈ history, x ≠ .event (.start .reset)) →
        MarkKept e.site.store.data.lastRun (e.across history).site.store.data.lastRun :=
  ⟨fun _ _ _ h => addsUp_of_perform h, fun _ h hstarts => markKept_across h hstarts⟩

end Engine

/-! A feed that gives all its views: one of them twice, and one that is disabled and was never
pinned. They tell of earlier updates than the watermark. -/

def overdue : Engine :=
  { watcher with site := { observatory with
    store := { data := { observatory.store.data with lastRun := some evening } }
    feed := { views := [stargazer, stargazer, { stargazer with id := 2, disabled := true }] }
    feedGivesAll := true } }

theorem summary_adds_up_overdue :
    (∃ l page plans, overdue.Loads .incremental l ∧
      overdue.site.feed.fetch none = .ok page ∧ page.mapM RawView.parse = .ok l.views ∧
      l.Executes hourly.window plans overdue.site.store.data
        (overdue.perform .incremental).2.site.store.data ∧
      Engine.AddsUp {
          viewsSeen := 3, created := 1, unchanged := 1, ignored := 1
          pinStatements := 1, viewStatements := 2, watermark := some evening }
        .incremental page l.registry plans overdue.site.store.data
        (overdue.perform .incremental).2.site.store.data) ∧
      MarkKept (some evening)
        (overdue.across [.event (.start .incremental), .event .work]).site.store.data.lastRun := by
  have hsum : (overdue.perform .incremental).1.toOption = some {
      viewsSeen := 3, created := 1, unchanged := 1, ignored := 1
      pinStatements := 1, viewStatements := 2, watermark := some evening } := by decide +kernel
  have hperform := eq_ok_of_toOption hsum
  obtain ⟨hruns, hhistories⟩ := Engine.summary_adds_up overdue
  refine ⟨?_, hhistories _ nofun ?_⟩
  · obtain ⟨l, page, plans, hloads, hpage, hviews, hexecutes, hadds⟩ :=
      hruns .incremental _ _ hperform
    exact ⟨l, page, plans, hloads, hpage, hviews, hexecutes, hadds⟩
  · intro x hx
    rcases List.mem_cons.1 hx with rfl | hx
    · nofun
    · rw [List.mem_singleton.1 hx]
      nofun

end PinLedger
