import PinLedger.Proofs.Feed.Latest
import PinLedger.Proofs.Feed.Memory
import PinLedger.Proofs.Run.Mirroring
import PinLedger.Proofs.Service.Conservation

/-!
# PinLedger.Proofs.Service.Watermark

No change of the feed is lost. A run that is not from scratch asks for the views that were updated
after the watermark; all others are as the records say, for a run that was committed has seen them.

* `Mirror` — the records are those of the enabled views
* `Tracks` — the invariant: what was updated no later than the watermark is recorded
* `Happening`, `Scene.after` — upserts and runs, interleaved stage by stage
* `completed_run_mirrors` — after a run that completes the records mirror what it fetched from
-/

namespace PinLedger

/-! ### Mirrors -/

/-- The view can be decoded, and its record is as it asks. -/
def Recorded (records : ViewTable) (raw : RawView) : Prop :=
  ∃ v, raw.parse = .ok v ∧ Mirrors (records.find? raw.id) v

/-- The records are those of the enabled views of a feed. -/
structure Mirror (records : ViewTable) (feed : List RawView) : Prop where
  recorded : ∀ raw ∈ feed, Recorded records raw
  listed : ∀ r ∈ records.toList, ∃ raw ∈ feed, raw.id = r.id ∧ raw.disabled = false

/-- A load that was gathered when the feed held `snapshot`. What is not on the page is recorded. -/
structure Gathered (d : StoreData) (l : Load) (snapshot : List RawView) : Prop where
  nodup : (snapshot.map (·.id)).Nodup
  page : ∃ page : List RawView, page.mapM RawView.parse = .ok l.views ∧ page.Sublist snapshot ∧
    ∀ raw ∈ snapshot, raw ∉ page → l.fresh = false ∧ Recorded d.views raw
  listed : ∀ r ∈ d.views.toList, ∃ raw ∈ snapshot, raw.id = r.id

theorem eq_of_id {views : List RawView} (h : (views.map (·.id)).Nodup) {raw raw' : RawView}
    (hraw : raw ∈ views) (hraw' : raw' ∈ views) (heq : raw.id = raw'.id) : raw = raw' := by
  induction views with
  | nil => cases hraw
  | cons u views ih =>
    obtain ⟨hu, hrest⟩ := List.nodup_cons.1 h
    rcases List.mem_cons.1 hraw with rfl | hmem
    · rcases List.mem_cons.1 hraw' with rfl | hmem'
      · rfl
      · exact absurd (List.mem_map.2 ⟨raw', hmem', heq.symm⟩) hu
    · rcases List.mem_cons.1 hraw' with rfl | hmem'
      · exact absurd (List.mem_map.2 ⟨raw, hmem, heq⟩) hu
      · exact ih hrest hmem hmem'

variable {w : Window} {d d' : StoreData} {l : Load} {snapshot feed : List RawView}
variable {sum : RunSummary}

/-- What a load does to the records and to the watermark. -/
theorem updated_of_post (hnodup : (l.views.map (·.id)).Nodup) (h : l.post w d = .ok (sum, d')) :
    Updated (if l.fresh then .empty else d.views) l.views d'.views ∧
      d'.lastRun = l.watermark.or d.lastRun := by
  unfold Load.post at h
  cases hfresh : l.fresh
  · simp only [hfresh, Bool.false_eq_true, if_false] at h ⊢
    exact mirrors_update hnodup h
  · simp only [hfresh, if_true] at h ⊢
    exact mirrors_rebuild hnodup h

/-- Once the load has been posted, the records mirror the feed as it was when the load was gathered.
-/
theorem Gathered.mirror (hl : Gathered d l snapshot) (h : l.post w d = .ok (sum, d')) :
    Mirror d'.views snapshot := by
  obtain ⟨page, hpage, hsub, hleft⟩ := hl.page
  have hids : l.views.map (·.id) = page.map (·.id) := ids_of_mapM_parse hpage
  have hnodup : (l.views.map (·.id)).Nodup := by
    rw [hids]
    exact hl.nodup.sublist (hsub.map _)
  obtain ⟨hupdated, _⟩ := updated_of_post hnodup h
  -- every view of the load comes from the page
  have hsource : ∀ v ∈ l.views, ∃ raw ∈ page, raw.id = v.id := by
    intro v hv
    obtain ⟨raw, hraw, hparse⟩ := mem_of_mapM_ok hpage v hv
    exact ⟨raw, hraw, (parse_eq_ok hparse).1.symm⟩
  have hrecorded : ∀ raw ∈ snapshot, Recorded d'.views raw := by
    intro raw hraw
    by_cases hmem : raw ∈ page
    · obtain ⟨v, hv, hparse⟩ := ok_of_mapM hpage raw hmem
      refine ⟨v, hparse, ?_⟩
      rw [← (parse_eq_ok hparse).1]
      exact hupdated.mirrors v hv
    · obtain ⟨hfresh, v, hparse, hmirrors⟩ := hleft raw hraw hmem
      have hother : ∀ u ∈ l.views, u.id ≠ raw.id := by
        intro u hu heq
        obtain ⟨raw', hraw', hid⟩ := hsource u hu
        have hsame : raw' = raw :=
          eq_of_id hl.nodup (hsub.subset hraw') hraw (hid.trans heq)
        exact hmem (hsame ▸ hraw')
      refine ⟨v, hparse, ?_⟩
      rw [hupdated.others raw.id hother, hfresh]
      exact hmirrors
  refine ⟨hrecorded, ?_⟩
  intro r hr
  have hfind : d'.views.find? r.id = some r := ViewTable.find?_of_mem hr
  have hid : ∃ raw ∈ snapshot, raw.id = r.id := by
    by_cases hv : ∃ v ∈ l.views, v.id = r.id
    · obtain ⟨v, hv, heq⟩ := hv
      obtain ⟨raw, hraw, hid⟩ := hsource v hv
      exact ⟨raw, hsub.subset hraw, hid.trans heq⟩
    · have hother : ∀ v ∈ l.views, v.id ≠ r.id := fun v hmem heq => hv ⟨v, hmem, heq⟩
      rw [hupdated.others r.id hother] at hfind
      cases hfresh : l.fresh
      · rw [hfresh] at hfind
        exact hl.listed r (ViewTable.mem_of_find? hfind)
      · rw [hfresh] at hfind
        cases hfind
  obtain ⟨raw, hraw, hid⟩ := hid
  refine ⟨raw, hraw, hid, ?_⟩
  obtain ⟨v, hparse, hmirrors⟩ := hrecorded raw hraw
  rw [hid, ViewTable.find?_of_mem hr] at hmirrors
  rw [← (parse_eq_ok hparse).2.1]
  rcases mirrors_cases hmirrors with ⟨_, hnone⟩ | ⟨hd, _⟩
  · cases hnone
  · exact hd

/-! ### The invariant -/

/-- What is known of a feed, changed by upserts that told these updates, and of the data of a store.
What told an update no later than the watermark is recorded. -/
structure Tracks (told : List Instant) (feed : List RawView) (d : StoreData) : Prop where
  nodup : (feed.map (·.id)).Nodup
  tells : ∀ raw ∈ feed, ∀ t, raw.lastUpdate = some t → t ∈ told
  mark : ∀ m, d.lastRun = some m → m ∈ told
  recorded : ∀ raw ∈ feed, ∀ t m, raw.lastUpdate = some t → d.lastRun = some m → t ≤ m →
    Recorded d.views raw
  listed : ∀ r ∈ d.views.toList, ∃ raw ∈ feed, raw.id = r.id

/-- A load that waits for its transaction. What came to the feed since it was gathered told later
updates than the watermark that will be stored. -/
structure Waits (told : List Instant) (feed : List RawView) (d : StoreData) (l : Load)
    (snapshot : List RawView) : Prop where
  gathered : Gathered d l snapshot
  mark : ∀ m, l.watermark.or d.lastRun = some m → m ∈ told
  kept : ∀ raw ∈ snapshot, ∃ raw' ∈ feed, raw'.id = raw.id
  newer : ∀ raw ∈ feed, raw ∈ snapshot ∨
    ∀ t m, raw.lastUpdate = some t → l.watermark.or d.lastRun = some m → m < t

variable {told : List Instant} {v : RawView}

theorem Tracks.empty (hviews : d.views = .empty) (hmark : d.lastRun = none) : Tracks [] [] d := by
  refine ⟨List.nodup_nil, ?_, ?_, ?_, ?_⟩
  · intro raw hraw
    cases hraw
  · intro m hm
    rw [hmark] at hm
    cases hm
  · intro raw hraw
    cases hraw
  · intro r hr
    rw [hviews] at hr
    cases hr

/-- An upsert tells a later update than all before, or none. -/
theorem Tracks.put (h : Tracks told feed d)
    (hv : ∀ t, v.lastUpdate = some t → ∀ m ∈ told, m < t) :
    Tracks (told ++ v.lastUpdate.toList) (MemoryFeed.put v feed) d := by
  refine ⟨MemoryFeed.nodup_put h.nodup, ?_, ?_, ?_, ?_⟩
  · intro raw hraw t ht
    rcases MemoryFeed.mem_put hraw with rfl | hraw
    · rw [ht]
      exact List.mem_append_right _ (List.mem_singleton.2 rfl)
    · exact List.mem_append_left _ (h.tells raw hraw t ht)
  · intro m hm
    exact List.mem_append_left _ (h.mark m hm)
  · intro raw hraw t m ht hm hle
    rcases MemoryFeed.mem_put hraw with rfl | hraw
    · exact absurd hle (Instant.not_le.2 (hv t ht m (h.mark m hm)))
    · exact h.recorded raw hraw t m ht hm hle
  · intro r hr
    obtain ⟨raw, hraw, hid⟩ := h.listed r hr
    obtain ⟨raw', hraw', heq⟩ := MemoryFeed.exists_put (v := v) hraw
    exact ⟨raw', hraw', heq.trans hid⟩

theorem Waits.put (h : Waits told feed d l snapshot)
    (hv : ∀ t, v.lastUpdate = some t → ∀ m ∈ told, m < t) :
    Waits (told ++ v.lastUpdate.toList) (MemoryFeed.put v feed) d l snapshot := by
  refine ⟨h.gathered, ?_, ?_, ?_⟩
  · intro m hm
    exact List.mem_append_left _ (h.mark m hm)
  · intro raw hraw
    obtain ⟨raw', hraw', heq⟩ := h.kept raw hraw
    obtain ⟨raw'', hraw'', heq'⟩ := MemoryFeed.exists_put (v := v) hraw'
    exact ⟨raw'', hraw'', heq'.trans heq⟩
  · intro raw hraw
    rcases MemoryFeed.mem_put hraw with rfl | hraw
    · right
      intro t m ht hm
      exact hv t ht m (h.mark m hm)
    · exact h.newer raw hraw

/-- The load is posted: what it has seen is recorded, and all else told later updates. -/
theorem Waits.post (h : Waits told feed d l snapshot) (hd : Tracks told feed d)
    (hpost : l.post w d = .ok (sum, d')) : Tracks told feed d' := by
  have hmirror := h.gathered.mirror hpost
  have hlast : d'.lastRun = l.watermark.or d.lastRun := by
    obtain ⟨page, hpage, hsub, _⟩ := h.gathered.page
    refine (updated_of_post ?_ hpost).2
    rw [ids_of_mapM_parse hpage]
    exact h.gathered.nodup.sublist (hsub.map _)
  refine ⟨hd.nodup, hd.tells, ?_, ?_, ?_⟩
  · intro m hm
    exact h.mark m (hlast ▸ hm)
  · intro raw hraw t m ht hm hle
    rcases h.newer raw hraw with hsnapshot | hlater
    · exact hmirror.recorded raw hsnapshot
    · exact absurd hle (Instant.not_le.2 (hlater t m ht (hlast ▸ hm)))
  · intro r hr
    obtain ⟨raw, hraw, hid, _⟩ := hmirror.listed r hr
    obtain ⟨raw', hraw', heq⟩ := h.kept raw hraw
    exact ⟨raw', hraw', heq.trans hid⟩

/-! ### Gathering -/

/-- A page is fetched from the feed of a site. What is left out told an update, no later than the
instant asked for. -/
theorem page_of_fetch {s : Site} {since latest : Option Instant} {views : List ParsedView}
    (h : s.fetch since = .ok (views, latest)) :
    ∃ page : List RawView, page.mapM RawView.parse = .ok views ∧ page.Sublist s.feed.views ∧
      latest = latestUpdate page ∧
      ∀ raw ∈ s.feed.views, raw ∉ page →
        ∃ t m, raw.lastUpdate = some t ∧ since = some m ∧ t ≤ m := by
  obtain ⟨page, hfetch, hparse, hlatest⟩ := Site.fetch_eq_ok h
  have hpage := MemoryFeed.fetch_eq_ok hfetch
  refine ⟨page, hparse, ?_, hlatest, ?_⟩
  · rw [hpage]
    exact List.filter_sublist
  · intro raw hraw hnot
    rw [hpage] at hnot
    obtain ⟨t, m, ht, hm, hle⟩ := MemoryFeed.unchanged_of_not_mem hraw hnot
    refine ⟨t, m, ht, ?_, hle⟩
    cases hall : s.feedGivesAll
    · simpa [hall] using hm
    · simp [hall] at hm

theorem laterMark_eq_some {a b : Option Instant} {m : Instant}
    (h : Engine.laterMark a b = some m) : a = some m ∨ b = some m := by
  unfold Engine.laterMark at h
  cases a with
  | none => exact .inr h
  | some t =>
    cases b with
    | none => exact .inl h
    | some u =>
      have hm : t.latest u = m := Option.some.inj h
      rcases Instant.latest_eq t u with heq | heq
      · exact .inl (congrArg some (heq.symm.trans hm))
      · exact .inr (congrArg some (heq.symm.trans hm))

/-- A load that has just been gathered waits. -/
theorem waits_of_gather {e : Engine} {r : Request}
    (h : Tracks told e.site.feed.views e.site.store.data)
    (hr : ∀ mark, r = .since mark → mark = e.site.store.data.lastRun)
    (hg : e.gather r = .ok l) :
    Waits told e.site.feed.views e.site.store.data l e.site.feed.views := by
  -- the latest update of a page was told by one of its views
  have hlatest : ∀ page : List RawView, page.Sublist e.site.feed.views → ∀ m,
      latestUpdate page = some m → m ∈ told := by
    intro page hsub m hm
    obtain ⟨raw, hraw, ht⟩ := mem_of_latestUpdate hm
    exact h.tells raw (hsub.subset hraw) m ht
  have hkept : ∀ raw ∈ e.site.feed.views, ∃ raw' ∈ e.site.feed.views, raw'.id = raw.id :=
    fun raw hraw => ⟨raw, hraw, rfl⟩
  obtain ⟨answer, hfetch, rfl⟩ := Engine.gather_eq_ok hg
  obtain ⟨page, hpage, hsub, hlast, hleft⟩ := page_of_fetch hfetch
  cases r with
  | all registry =>
    refine ⟨⟨h.nodup, ⟨page, hpage, hsub, ?_⟩, h.listed⟩, ?_, hkept, fun raw hraw => .inl hraw⟩
    · intro raw hraw hnot
      obtain ⟨t, m, _, hsince, _⟩ := hleft raw hraw hnot
      cases hsince
    · intro m hm
      rcases Option.or_eq_some_iff.1 hm with hm | ⟨_, hm⟩
      · exact hlatest page hsub m (hlast ▸ hm)
      · exact h.mark m hm
  | since mark =>
    have hmark := hr mark rfl
    refine ⟨⟨h.nodup, ⟨page, hpage, hsub, ?_⟩, h.listed⟩, ?_, hkept, fun raw hraw => .inl hraw⟩
    · intro raw hraw hnot
      obtain ⟨t, m, ht, hsince, hle⟩ := hleft raw hraw hnot
      exact ⟨rfl, h.recorded raw hraw t m ht (hmark.symm.trans hsince) hle⟩
    · intro m hm
      rcases Option.or_eq_some_iff.1 hm with hm | ⟨_, hm⟩
      · rcases laterMark_eq_some hm with hm | hm
        · exact h.mark m (hmark.symm.trans hm)
        · exact hlatest page hsub m (hlast ▸ hm)
      · exact h.mark m hm

/-! ### Interleavings -/

/-- How far the run of a service has come. -/
inductive Progress where
  | idle
  | begun (r : Request)
  /-- The load was gathered when the feed held these views. -/
  | gathered (l : Load) (snapshot : List RawView)
deriving DecidableEq

/-- A service, and the run that it is doing. -/
structure Scene where
  engine : Engine
  run : Progress := .idle

/-- What may happen next: the feed or the troubles of the site change, or the run goes on. -/
inductive Happening where
  | upsert (v : RawView)
  /-- The feed fails with a text, or recovers. -/
  | feedFailure (text : Option String)
  | faults (f : Faults)
  | outages (o : Outages)
  | begin (kind : TaskKind)
  | gather
  | commit

/-- The update that a happening tells. -/
def Happening.tells : Happening → Option Instant
  | .upsert v => v.lastUpdate
  | _ => none

/-- Every told update is later than all that were told before. -/
def Ordered (history : List Happening) : Prop :=
  (history.filterMap Happening.tells).Pairwise (· < ·)

namespace Scene

def withFeed (s : Scene) (f : MemoryFeed) : Scene :=
  { s with engine := { s.engine with site := { s.engine.site with feed := f } } }

/-- A stage that fails ends the run. -/
def next (s : Scene) : Happening → Scene
  | .upsert v => s.withFeed (s.engine.site.feed.upsert v)
  | .feedFailure text => s.withFeed { s.engine.site.feed with failure := text }
  | .faults f => { s with engine := s.engine.withStore { s.engine.site.store with faults := f } }
  | .outages o => { s with engine := { s.engine with site := { s.engine.site with outages := o } } }
  | .begin kind =>
    match s.run with
    | .idle =>
      match s.engine.begin kind with
      | (.error _, e) => ⟨e, .idle⟩
      | (.ok r, e) => ⟨e, .begun r⟩
    | _ => s
  | .gather =>
    match s.run with
    | .begun r =>
      match s.engine.gather r with
      | .error _ => { s with run := .idle }
      | .ok l => { s with run := .gathered l s.engine.site.feed.views }
    | _ => s
  | .commit =>
    match s.run with
    | .gathered l _ => ⟨(s.engine.commit l).2, .idle⟩
    | _ => s

/-- The scene after a history. -/
def after (s : Scene) (history : List Happening) : Scene := history.foldl next s

/-- The stages without anything between them are a run. -/
theorem after_stages (e : Engine) (kind : TaskKind) :
    (⟨e, .idle⟩ : Scene).after [.begin kind, .gather, .commit] = ⟨(e.perform kind).2, .idle⟩ := by
  rw [Engine.perform_eq_stages]
  simp only [after, List.foldl_cons, List.foldl_nil, next]
  rcases e.begin kind with ⟨r, e₁⟩
  cases r with
  | error err => rfl
  | ok r =>
    simp only
    cases e₁.gather r with
    | error err => rfl
    | ok l => rfl

/-- What is known of the run of a scene. -/
def Running (told : List Instant) (s : Scene) : Prop :=
  match s.run with
  | .idle => True
  | .begun r => ∀ mark, r = .since mark → mark = s.engine.site.store.data.lastRun
  | .gathered l snapshot => Waits told s.engine.site.feed.views s.engine.site.store.data l snapshot

/-- The invariant of a scene. -/
structure Sound (told : List Instant) (s : Scene) : Prop where
  tracks : Tracks told s.engine.site.feed.views s.engine.site.store.data
  running : s.Running told

variable {s : Scene}

theorem Sound.upsert (h : s.Sound told) (hv : ∀ t, v.lastUpdate = some t → ∀ m ∈ told, m < t) :
    (s.next (.upsert v)).Sound (told ++ v.lastUpdate.toList) := by
  refine ⟨h.tracks.put hv, ?_⟩
  have hrunning := h.running
  unfold Running at hrunning ⊢
  show match s.run with
    | .idle => True
    | .begun r => _
    | .gathered l snapshot => _
  cases hrun : s.run with
  | idle => trivial
  | begun r =>
    rw [hrun] at hrunning
    exact hrunning
  | gathered l snapshot =>
    rw [hrun] at hrunning
    exact Waits.put hrunning hv

theorem Sound.begin (h : s.Sound told) (kind : TaskKind) :
    (s.next (.begin kind)).Sound told := by
  unfold next
  cases hrun : s.run with
  | begun r =>
    simp only
    exact h
  | gathered l snapshot =>
    simp only
    exact h
  | idle =>
    simp only
    rcases hb : s.engine.begin kind with ⟨r, e⟩
    obtain ⟨hsite, _⟩ := Engine.begin_frame hb
    have htracks : Tracks told e.site.feed.views e.site.store.data := by
      rw [hsite]
      exact h.tracks
    cases r with
    | error err => exact ⟨htracks, trivial⟩
    | ok r =>
      refine ⟨htracks, ?_⟩
      intro mark hmark
      subst hmark
      obtain ⟨_, hmark, rfl⟩ := Engine.of_begin hb
      exact hmark

theorem Sound.gather (h : s.Sound told) : (s.next .gather).Sound told := by
  have hrunning := h.running
  unfold Running at hrunning
  unfold next
  cases hrun : s.run with
  | idle =>
    simp only
    exact h
  | gathered l snapshot =>
    simp only
    exact h
  | begun r =>
    rw [hrun] at hrunning
    simp only
    cases hg : s.engine.gather r with
    | error err => exact ⟨h.tracks, trivial⟩
    | ok l => exact ⟨h.tracks, waits_of_gather h.tracks hrunning hg⟩

theorem Sound.commit (h : s.Sound told) : (s.next .commit).Sound told := by
  have hrunning := h.running
  unfold Running at hrunning
  unfold next
  cases hrun : s.run with
  | idle =>
    simp only
    exact h
  | begun r =>
    simp only
    exact h
  | gathered l snapshot =>
    rw [hrun] at hrunning
    simp only
    rcases hc : s.engine.commit l with ⟨r, e⟩
    obtain ⟨_, hsite, _, _⟩ := Engine.commit_frame hc
    have hfeed : e.site.feed = s.engine.site.feed := by rw [hsite]
    refine ⟨?_, trivial⟩
    show Tracks told e.site.feed.views e.site.store.data
    rw [hfeed]
    cases r with
    | error err =>
      rw [Engine.data_of_commit_error hc]
      exact h.tracks
    | ok sum => exact Waits.post hrunning h.tracks (Engine.of_commit hc)

/-- Whatever happens, the invariant holds with the updates told so far. -/
theorem Sound.next {x : Happening} (h : s.Sound told)
    (hx : ∀ t, x.tells = some t → ∀ m ∈ told, m < t) :
    (s.next x).Sound (told ++ x.tells.toList) := by
  cases x with
  | upsert v => exact h.upsert hx
  | feedFailure text =>
    show Sound (told ++ []) _
    rw [List.append_nil]
    exact ⟨h.tracks, h.running⟩
  | faults f =>
    show Sound (told ++ []) _
    rw [List.append_nil]
    exact ⟨h.tracks, h.running⟩
  | outages o =>
    show Sound (told ++ []) _
    rw [List.append_nil]
    exact ⟨h.tracks, h.running⟩
  | begin kind =>
    show Sound (told ++ []) _
    rw [List.append_nil]
    exact h.begin kind
  | gather =>
    show Sound (told ++ []) _
    rw [List.append_nil]
    exact h.gather
  | commit =>
    show Sound (told ++ []) _
    rw [List.append_nil]
    exact h.commit

theorem Sound.after {history : List Happening} (h : s.Sound told)
    (hordered : (told ++ history.filterMap Happening.tells).Pairwise (· < ·)) :
    (s.after history).Sound (told ++ history.filterMap Happening.tells) := by
  induction history generalizing s told with
  | nil =>
    rw [List.filterMap_nil, List.append_nil]
    exact h
  | cons x history ih =>
    have hsplit : told ++ (x :: history).filterMap Happening.tells =
        told ++ x.tells.toList ++ history.filterMap Happening.tells := by
      rw [List.append_assoc]
      cases htold : x.tells with
      | none => rw [List.filterMap_cons_none htold]; rfl
      | some t => rw [List.filterMap_cons_some htold]; rfl
    rw [hsplit] at hordered ⊢
    refine ih (h.next ?_) hordered
    intro t ht m hm
    have hprefix := (List.pairwise_append.1 hordered).1
    rw [ht] at hprefix
    exact (List.pairwise_append.1 hprefix).2.2 m hm t (List.mem_singleton.2 rfl)

/-- **No change of the feed is lost.** A service starts with an empty feed, no records and no
watermark. Upserts whose told updates increase, troubles and the stages of runs come in any order.
When a run completes, the records mirror the feed as it was when the run fetched from it. -/
theorem completed_run_mirrors {e e' : Engine} (hfeed : e.site.feed.views = [])
    (hviews : e.site.store.data.views = .empty) (hmark : e.site.store.data.lastRun = none)
    {history : List Happening} (hordered : Ordered history)
    (hrun : ((⟨e, .idle⟩ : Scene).after history).run = .gathered l snapshot)
    (hcommit : ((⟨e, .idle⟩ : Scene).after history).engine.commit l = (.ok sum, e')) :
    Mirror e'.site.store.data.views snapshot := by
  have hstart : (⟨e, .idle⟩ : Scene).Sound [] := by
    refine ⟨?_, trivial⟩
    show Tracks [] e.site.feed.views e.site.store.data
    rw [hfeed]
    exact Tracks.empty hviews hmark
  have hsound : ((⟨e, .idle⟩ : Scene).after history).Sound
      ([] ++ history.filterMap Happening.tells) := hstart.after hordered
  have hrunning := hsound.running
  unfold Running at hrunning
  rw [hrun] at hrunning
  exact hrunning.gathered.mirror (Engine.of_commit hcommit)

end Scene

/-! A night with two runs that go from the watermark, and with a reset between them that fails. -/

def night : Instant := ⟨1742504400, 0, Instant.epoch.nano_lt, by decide, by decide⟩

def latecomer : RawView := { stargazer with id := 2, lastUpdate := some evening }

/-- A view that does not tell when it was updated. -/
def undated : RawView := { stargazer with id := 3, lastUpdate := none }

/-- The first run sees one view and the second two others. Before the second is committed, the first
view leaves, which is for another run to see. -/
def troubledNight : List Happening :=
  [.upsert stargazer, .begin .incremental, .gather, .commit,
   .feedFailure (some "no answer"), .begin .reset, .gather, .feedFailure none,
   .upsert latecomer, .upsert undated, .begin .incremental, .gather,
   .upsert { stargazer with disabled := true, lastUpdate := some night }]

/-- One of these views, as a run reads it. -/
def gazing (id : Int) (lastUpdate : Option Instant) : ParsedView where
  id := id
  layers := ["stars"]
  time := afternoon
  timeMode := .absolute
  disabled := false
  drivingLayer := none
  lastUpdate := lastUpdate

/-- What the second run has gathered: the first view told an update no later than the watermark. -/
def secondLoad : Load where
  fresh := false
  registry := watcher.service.registry
  views := [gazing 2 (some evening), gazing 3 none]
  watermark := some evening

/-- The record of the first view is the one that the first run has left. -/
theorem completed_run_mirrors_troubledNight :
    Mirror ((((⟨watcher, .idle⟩ : Scene).after troubledNight).engine.commit
      secondLoad).2.site.store.data.views) [stargazer, latecomer, undated] := by
  have hordered : Ordered troubledNight := by
    unfold Ordered
    decide
  have hrun : ((⟨watcher, .idle⟩ : Scene).after troubledNight).run =
      .gathered secondLoad [stargazer, latecomer, undated] := by decide +kernel
  have hsum : (((⟨watcher, .idle⟩ : Scene).after troubledNight).engine.commit
      secondLoad).1.toOption = some {
        viewsSeen := 2, created := 2, pinStatements := 2, viewStatements := 2
        watermark := some evening } := by decide +kernel
  exact Scene.completed_run_mirrors rfl rfl rfl hordered hrun (eq_ok_of_toOption hsum)

end PinLedger
