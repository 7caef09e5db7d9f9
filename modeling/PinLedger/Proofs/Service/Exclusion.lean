import PinLedger.Proofs.Service.Breakdown
import PinLedger.Proofs.Service.Conservation

/-!
# PinLedger.Proofs.Service.Exclusion

Services over one store with one lock, and foreign sessions. Whatever the order of their steps, at
most one run of all services is between its admission and its release.

* `System`, `System.act` — the services, the sessions and their steps
* `Guarded` — the invariant: each service has its own session, and every lock has an owner
* `System.Safe` — exclusion, as it can be seen from outside
* `System.safe_after` — it holds in every reachable state
-/

namespace PinLedger

/-- Services over one store, and the foreign sessions that are open. -/
structure System (ι : Type) where
  store : Store
  posts : ι → Post
  visitors : List SessionId := []

inductive Act (ι : Type) where
  | post (i : ι) (m : Move)
  /-- The store comes into trouble, or out of it. -/
  | faults (f : Faults)
  | visit
  | lock (visitor : SessionId) (key : Int)
  | unlock (visitor : SessionId) (key : Int)
  | drop (visitor : SessionId)

/-- The catalog does not break down. -/
def Act.Steady {ι : Type} : Act ι → Prop
  | .post _ m => m.Steady
  | _ => True

/-- A service meets the store as the others have left it. -/
def Post.on (p : Post) (store : Store) : Post := { p with engine := p.engine.withStore store }

theorem Post.Takes.on {key : Int} {p : Post} {t : Stance} (ht : p.Takes key t) (store : Store) :
    (p.on store).Takes key t :=
  ⟨ht.gate, ht.jobs, ht.duty, ht.lockKey, ht.stopped, ht.running, ht.current⟩

namespace System

variable {ι : Type} [DecidableEq ι]

/-- One step of anybody. -/
def act (s : System ι) : Act ι → System ι
  | .post i m =>
    let p := ((s.posts i).on s.store).next m
    { s with store := p.store, posts := fun j => if j = i then p else s.posts j }
  | .faults f => { s with store := { s.store with faults := f } }
  | .visit =>
    match s.store.openSession with
    | .error _ => s
    | .ok (session, store) => { s with store, visitors := session :: s.visitors }
  | .lock a k => if a ∈ s.visitors then { s with store := (s.store.tryLock a k).2 } else s
  | .unlock a k => if a ∈ s.visitors then { s with store := (s.store.unlock a k).2 } else s
  | .drop a =>
    if a ∈ s.visitors then
      { s with store := s.store.dropSession a, visitors := s.visitors.filter (· ≠ a) }
    else s

def after (s : System ι) (acts : List (Act ι)) : System ι := acts.foldl act s

end System

/-! ### The invariant -/

/-- Each service does what its stance says, with a session of its own. -/
structure Guarded {ι : Type} (key : Int) (s : System ι) (stance : ι → Stance) : Prop where
  takes : ∀ i, (s.posts i).Takes key (stance i)
  backed : ∀ i, Backed key s.store (stance i)
  issued : ∀ i a, (stance i).session? = some a → a < s.store.nextSession
  visited : ∀ a ∈ s.visitors, a < s.store.nextSession
  apart : ∀ i j a, (stance i).session? = some a → (stance j).session? = some a → i = j
  foreign : ∀ i a, (stance i).session? = some a → a ∉ s.visitors
  accounted : ∀ a k, s.store.Holds a k → a ∈ s.visitors ∨ ∃ i, (stance i).session? = some a

namespace Guarded

variable {ι : Type} {key : Int} {s : System ι} {stance : ι → Stance}

theorem issued_of_holds (h : Guarded key s stance) {a : SessionId} {k : Int}
    (ha : s.store.Holds a k) : a < s.store.nextSession := by
  rcases h.accounted a k ha with hvisitor | ⟨i, hi⟩
  · exact h.visited a hvisitor
  · exact h.issued i a hi

/-- No two services need the lock at once. -/
theorem alone (h : Guarded key s stance) {i j : ι} {a b : SessionId}
    (hi : (stance i).lock? = some a) (hj : (stance j).lock? = some b) : i = j ∧ a = b := by
  have hsame : a = b := ((h.backed i).held a hi).unique ((h.backed j).held b hj)
  subst hsame
  exact ⟨h.apart i j a (Stance.session_of_lock hi) (Stance.session_of_lock hj), rfl⟩

/-! ### Steps of services -/

section Services

variable {i j : ι} {q : Post} {t' : Stance} {a : SessionId}

/-- After a step the session of a service is still nobody else's: one that it opens is new. -/
theorem session_apart (h : Guarded key s stance)
    (hstep : Post.Step key ((s.posts i).on s.store) q (stance i) t') (hj : j ≠ i)
    (ha : t'.session? = some a) : (stance j).session? ≠ some a := by
  intro hja
  rcases hstep.session a ha with hold | ⟨rfl, _⟩
  · exact hj (h.apart j i a hja hold)
  · exact absurd (h.issued j _ hja) (Nat.lt_irrefl _)

theorem session_foreign (h : Guarded key s stance)
    (hstep : Post.Step key ((s.posts i).on s.store) q (stance i) t')
    (ha : t'.session? = some a) : a ∉ s.visitors := by
  intro hvisitor
  rcases hstep.session a ha with hold | ⟨rfl, _⟩
  · exact h.foreign i a hold hvisitor
  · exact absurd (h.visited _ hvisitor) (Nat.lt_irrefl _)

theorem session_issued (h : Guarded key s stance)
    (hstep : Post.Step key ((s.posts i).on s.store) q (stance i) t')
    (ha : t'.session? = some a) : a < q.store.nextSession := by
  rcases hstep.session a ha with hold | ⟨rfl, hlt⟩
  · exact Nat.lt_of_lt_of_le (h.issued i a hold) hstep.sessions
  · exact hlt

/-- The store stays as the other services need it. While one of them has the lock, no step changes
the data. -/
theorem backed_apart (h : Guarded key s stance)
    (hstep : Post.Step key ((s.posts i).on s.store) q (stance i) t') (hj : j ≠ i) :
    Backed key q.store (stance j) := by
  refine (h.backed j).frame ?_ ?_
  · intro a k ha
    exact hstep.others a k fun hia => hj (h.apart j i a ha hia)
  · intro mark hmark
    obtain ⟨a, ha⟩ := Stance.lock_of_mark hmark
    refine hstep.data ?_
    cases hi : (stance i).lock? with
    | none => rfl
    | some b => exact absurd (h.alone ha hi).1 hj

/-- A lock that is held after a step has an owner. -/
theorem owner_of_step (h : Guarded key s stance)
    (hstep : Post.Step key ((s.posts i).on s.store) q (stance i) t') {k : Int}
    (ha : q.store.Holds a k) :
    a ∈ s.visitors ∨ t'.session? = some a ∨ ∃ j, j ≠ i ∧ (stance j).session? = some a := by
  by_cases hi : (stance i).session? = some a
  · by_cases hi' : t'.session? = some a
    · exact .inr (.inl hi')
    · exact absurd ha (hstep.closed a hi hi' k)
  · rcases h.accounted a k ((hstep.others a k hi).1 ha) with hvisitor | ⟨j, hj⟩
    · exact .inl hvisitor
    · refine .inr (.inr ⟨j, ?_, hj⟩)
      rintro rfl
      exact hi hj

end Services

variable [DecidableEq ι]

/-- One service takes another stance. -/
def shift (stance : ι → Stance) (i : ι) (t : Stance) : ι → Stance :=
  fun j => if j = i then t else stance j

theorem shift_self (stance : ι → Stance) (i : ι) (t : Stance) : shift stance i t i = t := if_pos rfl

theorem shift_of_ne (stance : ι → Stance) {i j : ι} (t : Stance) (h : j ≠ i) :
    shift stance i t j = stance j := if_neg h

/-- The step of one service leaves all others in their stances. -/
theorem post (h : Guarded key s stance) (i : ι) (m : Move) :
    ∃ stance', Guarded key (s.act (.post i m)) stance' := by
  have ht : ((s.posts i).on s.store).Takes key (stance i) := (h.takes i).on s.store
  obtain ⟨t', hstep⟩ := Post.step ht (h.backed i) (fun a k ha => h.issued_of_holds ha) m
  refine ⟨shift stance i t', ?_, ?_, ?_, ?_, ?_, ?_, ?_⟩
  · intro j
    by_cases hj : j = i
    · subst hj
      rw [shift_self]
      simp only [System.act, if_true]
      exact hstep.takes
    · rw [shift_of_ne stance t' hj]
      simp only [System.act, hj, if_false]
      exact h.takes j
  · intro j
    by_cases hj : j = i
    · subst hj
      rw [shift_self]
      exact hstep.backed
    · rw [shift_of_ne stance t' hj]
      exact h.backed_apart hstep hj
  · intro j a ha
    by_cases hj : j = i
    · subst hj
      rw [shift_self] at ha
      exact h.session_issued hstep ha
    · rw [shift_of_ne stance t' hj] at ha
      exact Nat.lt_of_lt_of_le (h.issued j a ha) hstep.sessions
  · intro a ha
    exact Nat.lt_of_lt_of_le (h.visited a ha) hstep.sessions
  · intro j j' a hja hja'
    by_cases hj : j = i
    · by_cases hj' : j' = i
      · exact hj.trans hj'.symm
      · rw [hj, shift_self] at hja
        rw [shift_of_ne stance t' hj'] at hja'
        exact absurd hja' (h.session_apart hstep hj' hja)
    · rw [shift_of_ne stance t' hj] at hja
      by_cases hj' : j' = i
      · rw [hj', shift_self] at hja'
        exact absurd hja (h.session_apart hstep hj hja')
      · rw [shift_of_ne stance t' hj'] at hja'
        exact h.apart j j' a hja hja'
  · intro j a ha
    by_cases hj : j = i
    · subst hj
      rw [shift_self] at ha
      exact h.session_foreign hstep ha
    · rw [shift_of_ne stance t' hj] at ha
      exact h.foreign j a ha
  · intro a k ha
    rcases h.owner_of_step hstep ha with hvisitor | hmine | ⟨j, hj, hother⟩
    · exact .inl hvisitor
    · exact .inr ⟨i, (congrArg Stance.session? (shift_self stance i t')).trans hmine⟩
    · exact .inr ⟨j, (congrArg Stance.session? (shift_of_ne stance t' hj)).trans hother⟩

/-! ### Steps of foreign sessions -/

omit [DecidableEq ι] in
/-- A foreign session touches nobody else's locks, nor anything but locks. -/
theorem visitor (h : Guarded key s stance) {a : SessionId} (ha : a ∈ s.visitors) {store : Store}
    (hothers : ∀ b k, b ≠ a → (store.Holds b k ↔ s.store.Holds b k))
    (hdata : store.data = s.store.data) (hnext : store.nextSession = s.store.nextSession) :
    Guarded key { s with store } stance := by
  refine ⟨h.takes, ?_, ?_, ?_, h.apart, h.foreign, ?_⟩
  · intro i
    refine (h.backed i).frame ?_ (fun _ _ => hdata)
    intro b k hb
    refine hothers b k ?_
    rintro rfl
    exact h.foreign i b hb ha
  · intro i b hb
    rw [hnext]
    exact h.issued i b hb
  · intro b hb
    rw [hnext]
    exact h.visited b hb
  · intro b k hb
    by_cases hsame : b = a
    · subst hsame
      exact .inl ha
    · exact h.accounted b k ((hothers b k hsame).1 hb)

theorem lock (h : Guarded key s stance) (a : SessionId) (k : Int) :
    Guarded key (s.act (.lock a k)) stance := by
  simp only [System.act]
  split
  · rename_i ha
    refine h.visitor ha ?_ (Store.data_tryLock _ _ _) (Store.nextSession_tryLock _ _ _)
    intro b k' hb
    rw [Store.holds_tryLock]
    exact or_iff_left fun hsame => hb hsame.1
  · exact h

theorem unlock (h : Guarded key s stance) (a : SessionId) (k : Int) :
    Guarded key (s.act (.unlock a k)) stance := by
  simp only [System.act]
  split
  · rename_i ha
    refine h.visitor ha ?_ (Store.data_unlock _ _ _) (Store.nextSession_unlock _ _ _)
    intro b k' hb
    rw [Store.holds_unlock]
    exact and_iff_left fun hsame => hb hsame.1
  · exact h

theorem drop (h : Guarded key s stance) (a : SessionId) : Guarded key (s.act (.drop a)) stance := by
  simp only [System.act]
  split
  · rename_i ha
    have hstore : Guarded key { s with store := s.store.dropSession a } stance := by
      refine h.visitor ha ?_ rfl rfl
      intro b k hb
      rw [Store.holds_dropSession]
      exact and_iff_left hb
    refine ⟨hstore.takes, hstore.backed, hstore.issued, ?_, hstore.apart, ?_, ?_⟩
    · intro b hb
      exact hstore.visited b (List.mem_filter.1 hb).1
    · intro i b hb hmem
      exact hstore.foreign i b hb (List.mem_filter.1 hmem).1
    · intro b k hb
      have hne : b ≠ a := (Store.holds_dropSession.1 hb).2
      rcases hstore.accounted b k hb with hvisitor | hpost
      · exact .inl (List.mem_filter.2 ⟨hvisitor, decide_eq_true hne⟩)
      · exact .inr hpost
  · exact h

theorem visit (h : Guarded key s stance) : Guarded key (s.act .visit) stance := by
  simp only [System.act, Store.openSession]
  cases hreach : s.store.faults.unreachable with
  | true => exact h
  | false =>
    refine ⟨h.takes, ?_, ?_, ?_, h.apart, ?_, ?_⟩
    · intro i
      exact (h.backed i).frame (fun _ _ _ => Iff.rfl) (fun _ _ => rfl)
    · intro i a ha
      exact Nat.lt_succ_of_lt (h.issued i a ha)
    · intro a ha
      rcases List.mem_cons.1 ha with rfl | ha
      · exact Nat.lt_succ_self _
      · exact Nat.lt_succ_of_lt (h.visited a ha)
    · intro i a ha hmem
      rcases List.mem_cons.1 hmem with rfl | hmem
      · exact absurd (h.issued i _ ha) (Nat.lt_irrefl _)
      · exact h.foreign i a ha hmem
    · intro a k ha
      rcases h.accounted a k ha with hvisitor | hpost
      · exact .inl (List.mem_cons_of_mem _ hvisitor)
      · exact .inr hpost

theorem faults (h : Guarded key s stance) (f : Faults) :
    Guarded key (s.act (.faults f)) stance := by
  refine ⟨h.takes, ?_, h.issued, h.visited, h.apart, h.foreign, h.accounted⟩
  intro i
  exact (h.backed i).frame (fun _ _ _ => Iff.rfl) (fun _ _ => rfl)

theorem act (h : Guarded key s stance) (x : Act ι) :
    ∃ stance', Guarded key (s.act x) stance' := by
  cases x with
  | post i m => exact h.post i m
  | faults f => exact ⟨stance, h.faults f⟩
  | visit => exact ⟨stance, h.visit⟩
  | lock a k => exact ⟨stance, h.lock a k⟩
  | unlock a k => exact ⟨stance, h.unlock a k⟩
  | drop a => exact ⟨stance, h.drop a⟩

theorem after (h : Guarded key s stance) (acts : List (Act ι)) :
    ∃ stance', Guarded key (s.after acts) stance' := by
  induction acts generalizing s stance with
  | nil => exact ⟨stance, h⟩
  | cons x acts ih =>
    obtain ⟨stance', h'⟩ := h.act x
    exact ih h'

end Guarded

/-! ### Exclusion -/

theorem takes_of_create {key : Int} {settings : RunSettings} {site : Site} {p : Post}
    {ws : List Warning} (hkey : settings.lockKey = key)
    (hcreate : Engine.create settings site = (.ok p.engine, ws)) (hgate : p.gate = .free)
    (hduty : p.duty = none) : p.Takes key .resting := by
  obtain ⟨e, gate, duty⟩ := p
  obtain ⟨registry, _, rfl⟩ := Engine.of_create hcreate
  refine ⟨hgate, rfl, hduty, hkey, rfl, rfl, ?_⟩
  intro job hjob
  cases hjob

namespace System

variable {ι : Type} [DecidableEq ι]

/-- The services have been created with one lock key. Nobody holds a lock yet. -/
structure Fresh (key : Int) (s : System ι) : Prop where
  created : ∀ i, ∃ settings site ws, settings.lockKey = key ∧
    Engine.create settings site = (.ok (s.posts i).engine, ws)
  gates : ∀ i, (s.posts i).gate = .free
  duties : ∀ i, (s.posts i).duty = none
  visitors : s.visitors = []
  locks : s.store.locks = ∅

/-- Exclusion, as it can be seen from outside. -/
structure Safe (key : Int) (s : System ι) : Prop where
  /-- No lock has two holders. -/
  one_holder : ∀ k a b, s.store.Holds a k → s.store.Holds b k → a = b
  /-- Nobody frees the lock of another session. -/
  unlock_foreign : ∀ a k, ¬ s.store.Holds a k → s.store.unlock a k = (false, s.store)
  /-- A session that ends frees its own locks. -/
  drop_own : ∀ a b k, (s.store.dropSession a).Holds b k ↔ s.store.Holds b k ∧ b ≠ a
  /-- No lock is held by a session that has ended. -/
  accounted : ∀ a k, s.store.Holds a k → a ∈ s.visitors ∨ ∃ i, a ∈ (s.posts i).sessions
  one_job : ∀ i, (s.posts i).runs.length ≤ 1
  running : ∀ i, (s.posts i).gate = .free → (s.posts i).service.stopped = false →
    ((s.posts i).service.tracker.isRunning = true ↔ (s.posts i).runs ≠ [])
  current : ∀ i, ∀ job ∈ (s.posts i).runs,
    (s.posts i).service.tracker.state.taskId = some job.task
  /-- From its admission to its release a run has the lock. -/
  held : ∀ i, ∀ a ∈ (s.posts i).holders, s.store.Holds a key
  /-- No two runs of all services are between admission and release. -/
  alone : ∀ i j, ∀ a ∈ (s.posts i).holders, ∀ b ∈ (s.posts j).holders, i = j ∧ a = b
  /-- Between reading the watermark and its transaction, a run is not disturbed. -/
  watermark : ∀ i m, (s.posts i).mark? = some m → m = s.store.data.lastRun
  exclusive : ∀ i, (s.posts i).mark? ≠ none → ∀ j, j ≠ i →
    ((s.posts j).on s.store).next .read = (s.posts j).on s.store ∧
      ((s.posts j).on s.store).next .commit = (s.posts j).on s.store
  /-- Whoever has begun a task is not refused any more. -/
  accepted : ∀ i job, (s.posts i).gate = .begun job →
    ((s.posts i).engine.enqueue job).1 = .ok job.task
  /-- Up to then nothing has been done but that a session was opened. -/
  refused : ∀ i m, m.asks = true →
    (s.act (.post i m)).store.data = s.store.data ∧
      (∀ j, ((s.act (.post i m)).posts j).service = (s.posts j).service) ∧
      ((s.act (.post i m)).store.locks = s.store.locks ∨
        ((s.act (.post i m)).posts i).gate.lock? ≠ none)

end System

namespace Guarded

variable {ι : Type} [DecidableEq ι] {key : Int} {s : System ι} {stance : ι → Stance}

omit [DecidableEq ι] in
theorem of_fresh (h : s.Fresh key) : Guarded key s fun _ => .resting := by
  have hfree : ∀ a k, ¬ s.store.Holds a k := by
    intro a k ha
    rw [Store.holds_iff, h.locks] at ha
    cases ha
  refine ⟨?_, ?_, ?_, ?_, ?_, ?_, ?_⟩
  · intro i
    obtain ⟨settings, site, ws, hkey, hcreate⟩ := h.created i
    exact takes_of_create hkey hcreate (h.gates i) (h.duties i)
  · intro i
    refine ⟨?_, ?_, ?_, ?_⟩
    · intro a ha
      cases ha
    · intro a k ha
      cases ha
    · intro kind a ht
      cases ht
    · intro m hm
      cases hm
  · intro i a ha
    cases ha
  · intro a ha
    rw [h.visitors] at ha
    cases ha
  · intro i j a ha
    cases ha
  · intro i a ha
    cases ha
  · intro a k ha
    exact absurd ha (hfree a k)

theorem safe (h : Guarded key s stance) : s.Safe key where
  one_holder := fun k a b ha hb => ha.unique hb
  unlock_foreign := fun a k ha => Store.unlock_of_not_holds ha
  drop_own := fun a b k => Store.holds_dropSession
  accounted := by
    intro a k ha
    rcases h.accounted a k ha with hvisitor | ⟨i, hi⟩
    · exact .inl hvisitor
    · exact .inr ⟨i, (h.takes i).mem_sessions hi⟩
  one_job := fun i => (h.takes i).length_runs
  running := fun i hgate hup => (h.takes i).running_iff hgate hup
  current := fun i job hjob => (h.takes i).current job ((h.takes i).job_of_mem hjob)
  held := fun i a ha => (h.backed i).held a ((h.takes i).lock_of_mem ha)
  alone := fun i j a ha b hb => h.alone ((h.takes i).lock_of_mem ha) ((h.takes j).lock_of_mem hb)
  watermark := by
    intro i m hm
    rw [(h.takes i).mark_eq] at hm
    exact (h.backed i).mark m hm
  exclusive := by
    intro i hm j hj
    rw [(h.takes i).mark_eq] at hm
    obtain ⟨m, hm⟩ := Option.ne_none_iff_exists'.1 hm
    obtain ⟨a, ha⟩ := Stance.lock_of_mark hm
    refine ((h.takes j).on s.store).idle ?_
    cases hlock : (stance j).lock? with
    | none => rfl
    | some b => exact absurd (h.alone hlock ha).1 hj
  accepted := by
    intro i job hgate
    have hbegun : stance i = .begun job :=
      Stance.of_gate_begun ((h.takes i).gate.symm.trans hgate)
    have hup : (s.posts i).engine.service.stopped = false := by
      rw [(h.takes i).stopped, hbegun]
      rfl
    unfold Engine.enqueue
    rw [hup]
    rfl
  refused := by
    intro i m hm
    obtain ⟨hservice, hdata, hlocks⟩ :=
      Post.asks_frame ((h.takes i).on s.store) (h.backed i) hm
    refine ⟨hdata, ?_, ?_⟩
    · intro j
      by_cases hj : j = i
      · subst hj
        simp only [System.act, if_true]
        exact hservice
      · simp only [System.act, hj, if_false]
    · rcases hlocks with hlocks | ⟨kind, session, hgate⟩
      · exact .inl hlocks
      · right
        simp only [System.act, if_true, hgate]
        intro hnone
        cases hnone

end Guarded

namespace System

variable {ι : Type} [DecidableEq ι] {key : Int} {s : System ι}

theorem posts_act {x : Act ι} (h : ∀ i m, x ≠ .post i m) : (s.act x).posts = s.posts := by
  cases x with
  | post i m => exact absurd rfl (h i m)
  | faults f => rfl
  | visit =>
    simp only [act]
    split
    · rfl
    · rfl
  | lock a k =>
    simp only [act]
    split
    · rfl
    · rfl
  | unlock a k =>
    simp only [act]
    split
    · rfl
    · rfl
  | drop a =>
    simp only [act]
    split
    · rfl
    · rfl

theorem up_act {x : Act ι} (hposts : ∀ i, (s.posts i).Steady)
    (hup : ∀ i, (s.posts i).service.stopped = false) (hx : x.Steady) (j : ι) :
    ((s.act x).posts j).Steady ∧ ((s.act x).posts j).service.stopped = false := by
  by_cases hpost : ∃ i m, x = .post i m
  · obtain ⟨i, m, rfl⟩ := hpost
    by_cases hj : j = i
    · subst hj
      simp only [act, if_true]
      exact Post.steady_next (p := (s.posts j).on s.store) (hposts j) (hup j) hx
    · simp only [act, hj, if_false]
      exact ⟨hposts j, hup j⟩
  · rw [posts_act fun i m h => hpost ⟨i, m, h⟩]
    exact ⟨hposts j, hup j⟩

theorem up_after {acts : List (Act ι)} (hposts : ∀ i, (s.posts i).Steady)
    (hup : ∀ i, (s.posts i).service.stopped = false) (hacts : ∀ x ∈ acts, x.Steady) :
    ∀ i, ((s.after acts).posts i).service.stopped = false := by
  induction acts generalizing s with
  | nil => exact hup
  | cons x acts ih =>
    have hstep := up_act hposts hup (hacts x List.mem_cons_self)
    exact ih (fun j => (hstep j).1) (fun j => (hstep j).2)
      fun y hy => hacts y (List.mem_cons_of_mem x hy)

/-- **Exclusion.** Services are created over one store with one lock key. Whatever they and any
foreign sessions do, step by step and in any order, runs exclude each other, and the tracker of a
service tells of its run. No worker is gone as long as the catalog does not break down. -/
theorem safe_after (h : s.Fresh key) (acts : List (Act ι)) :
    (s.after acts).Safe key ∧
      ((∀ i, (s.posts i).Steady) → (∀ x ∈ acts, x.Steady) →
        ∀ i, ((s.after acts).posts i).service.stopped = false) := by
  constructor
  · obtain ⟨stance, hguarded⟩ := (Guarded.of_fresh h).after acts
    exact hguarded.safe
  · intro hposts hacts
    exact up_after hposts (fun i => ((Guarded.of_fresh h).takes i).stopped) hacts

end System

/-! Two services over the store of one site. -/

def rivals : System Bool where
  store := observatory.store
  posts := fun _ => { engine := watcher }

/-- The first service is admitted. Then the second one asks, and a visitor tries the lock. -/
def contest : List (Act Bool) :=
  [.post false (.call .reset), .post false .connect, .post false .lock, .post false .begin,
    .post true (.call .incremental), .post true .connect, .visit, .post false .send,
    .post true .lock, .lock 2 7]

theorem safe_after_contest :
    rivals.Fresh 7 ∧ (rivals.after contest).Safe 7 ∧ (rivals.after contest).store.Holds 0 7 ∧
      ∀ i, ((rivals.after contest).posts i).service.stopped = false := by
  have hcreate : Engine.create hourly observatory = (.ok watcher, []) := rfl
  have hfresh : rivals.Fresh 7 :=
    ⟨fun _ => ⟨hourly, observatory, [], rfl, hcreate⟩, fun _ => rfl, fun _ => rfl, rfl, rfl⟩
  have hlock : (rivals.after contest).store.locks.find? 7 = some 0 := by decide +kernel
  have hposts : ∀ i, (rivals.posts i).Steady := fun _ h => by cases h
  have hacts : ∀ x ∈ contest, x.Steady := by simp [contest, Act.Steady, Move.Steady]
  obtain ⟨hsafe, hup⟩ := System.safe_after hfresh contest
  exact ⟨hfresh, hsafe, Store.holds_iff.2 hlock, hup hposts hacts⟩

end PinLedger
