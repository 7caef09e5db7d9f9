import PinLedger.Proofs.Run.Faults
import PinLedger.Proofs.Service.Conservation

/-!
# PinLedger.Proofs.Service.BatchSize

The batch size is invisible. What a run is going to do is settled before its transaction, and what
the transaction comes to is what the load comes to when each statement is carried out at once, where
no size occurs.

* `store_of_commit` — a transaction changes nothing in the store but the data
* `Engine.batched` — the same service with another batch size
* `batch_size_invisible` — two sizes cannot be told apart
-/

namespace PinLedger

namespace Engine

variable {e e' : Engine} {l : Load} {sum : RunSummary}

/-! ### Transactions -/

/-- Besides the data, a transaction leaves the store as it was. -/
theorem store_of_commit (hf : e.site.store.faults.batchesLeft = none) :
    (e.commit l).2.site.store =
      { e.site.store with data := (e.commit l).2.site.store.data } := by
  rcases hc : e.commit l with ⟨r, e'⟩
  obtain ⟨_, _, hlocks, hnext⟩ := commit_frame hc
  have hfaults : e'.site.store.faults = e.site.store.faults := by
    rw [commit_eq] at hc
    rcases ho : e.site.outages.onTransaction with _ | err | text
    · rw [ho] at hc
      cases hc
      have hspares : Spares (l.work e.service.settings.window) :=
        Spares.ite spares_rebuild spares_update
      exact faults_of_transaction hspares hf _ _
    · rw [ho] at hc
      cases hc
      rfl
    · rw [ho] at hc
      cases hc
      rfl
  show e'.site.store = ⟨e'.site.store.data, e.site.store.locks, e.site.store.faults,
    e.site.store.nextSession⟩
  rw [← hlocks, ← hnext, ← hfaults]

theorem store_of_commit_error {err : RunError} (hf : e.site.store.faults.batchesLeft = none)
    (hc : e.commit l = (.error err, e')) : e'.site.store = e.site.store := by
  have hkept := store_of_commit (l := l) hf
  rw [hc] at hkept
  rw [hkept, data_of_commit_error hc]

/-! ### Batch sizes -/

/-- The service with another batch size. -/
def batched (e : Engine) (n : Nat) : Engine :=
  { e with service := { e.service with settings := { e.service.settings with batchSize := n } } }

theorem begin_batched (e : Engine) (n : Nat) (kind : TaskKind) :
    (e.batched n).begin kind = ((e.begin kind).1, (e.begin kind).2.batched n) :=
  begin_map (F := (·.batched n)) (fun _ => rfl) (fun _ _ => rfl) (fun _ _ _ => rfl) (fun _ => rfl)
    e kind

theorem gather_batched (e : Engine) (n : Nat) (r : Request) :
    (e.batched n).gather r = e.gather r := by
  cases r with
  | all registry => rfl
  | since mark => rfl

/-- The batch size has no part in what a run is going to do. -/
theorem load_batched (e : Engine) (n : Nat) (kind : TaskKind) :
    (e.batched n).load kind = ((e.load kind).1, (e.load kind).2.batched n) := by
  unfold load
  rw [begin_batched]
  rcases e.begin kind with ⟨r, e'⟩
  cases r with
  | error err => rfl
  | ok r => simp only [gather_batched]

/-- Of two sizes, a transaction that is committed with one is committed with the other. -/
theorem commit_of_commit {m n : Nat} (hf : e.site.store.faults.batchesLeft = none)
    (h : ((e.batched m).commit l).1 = .ok sum) :
    ((e.batched n).commit l).1 = .ok sum ∧
      ((e.batched n).commit l).2.site.store.data = ((e.batched m).commit l).2.site.store.data := by
  rcases hc : (e.batched m).commit l with ⟨r, e'⟩
  rw [hc] at h
  cases h
  have ho := onTransaction_of_commit hc
  have hpost := of_commit hc
  exact (commit_iff (e := e.batched n) ho hf).2 hpost

theorem commit_batched (m n : Nat) (hf : e.site.store.faults.batchesLeft = none) :
    (∀ sum, ((e.batched m).commit l).1 = .ok sum ↔ ((e.batched n).commit l).1 = .ok sum) ∧
      ((e.batched m).commit l).2.site.store = ((e.batched n).commit l).2.site.store := by
  refine ⟨fun sum => ⟨fun h => (commit_of_commit hf h).1, fun h => (commit_of_commit hf h).1⟩, ?_⟩
  rw [store_of_commit (e := e.batched m) hf, store_of_commit (e := e.batched n) hf]
  have hdata : ((e.batched m).commit l).2.site.store.data =
      ((e.batched n).commit l).2.site.store.data := by
    rcases hm : (e.batched m).commit l with ⟨r, e₁⟩
    rcases hn : (e.batched n).commit l with ⟨r', e₂⟩
    cases r with
    | ok sum =>
      have h := (commit_of_commit (n := n) hf (by rw [hm])).2
      rw [hm, hn] at h
      exact h.symm
    | error err =>
      cases r' with
      | ok sum =>
        have h := (commit_of_commit (n := m) hf (by rw [hn])).2
        rw [hm, hn] at h
        exact h
      | error err' =>
        exact (data_of_commit_error hm).trans (data_of_commit_error hn).symm
  rw [hdata]
  rfl

/-- **The batch size is invisible.** With no pin batch told to fail, a run completes with one batch
size if and only if it completes with another; it counts the same and leaves the same store. One that
fails leaves the store as it was. -/
theorem batch_size_invisible (e : Engine) (kind : TaskKind) (m n : Nat)
    (hf : e.site.store.faults.batchesLeft = none) :
    (∀ sum, ((e.batched m).perform kind).1 = .ok sum ↔ ((e.batched n).perform kind).1 = .ok sum) ∧
      ((e.batched m).perform kind).2.site.store = ((e.batched n).perform kind).2.site.store ∧
      ∀ err, ((e.batched m).perform kind).1 = .error err →
        ((e.batched m).perform kind).2.site.store = e.site.store := by
  rcases hl : e.load kind with ⟨r, e'⟩
  obtain ⟨hsite, _⟩ := load_frame hl
  simp only [perform_eq_load, load_batched, hl]
  cases r with
  | error err =>
    refine ⟨fun sum => Iff.rfl, rfl, ?_⟩
    intro _ _
    show e'.site.store = e.site.store
    rw [hsite]
  | ok l =>
    have hf' : e'.site.store.faults.batchesLeft = none := by
      rw [hsite]
      exact hf
    obtain ⟨hiff, hstore⟩ := commit_batched m n hf' (l := l)
    refine ⟨hiff, hstore, ?_⟩
    intro err herr
    rcases hc : (e'.batched m).commit l with ⟨r, e₁⟩
    simp only [hc] at herr
    cases herr
    have hkept := store_of_commit_error (e := e'.batched m) hf' hc
    show ((e'.batched m).commit l).2.site.store = e.site.store
    rw [hc, ← hsite]
    exact hkept

end Engine

/-! Two views of the same hour. With the size 0 every statement is a batch of its own, with the size 5
no batch is ever full. -/

def shared : Engine :=
  { watcher with site := { observatory with
    feed := { views := [stargazer, { stargazer with id := 2 }] } } }

theorem batch_size_invisible_shared :
    ((shared.batched 5).perform .reset).1 = .ok {
        viewsSeen := 2, created := 2, pinStatements := 3, viewStatements := 2
        watermark := some afternoon } ∧
      ((shared.batched 0).perform .reset).2.site.store =
        ((shared.batched 5).perform .reset).2.site.store := by
  have hsum : ((shared.batched 0).perform .reset).1.toOption = some {
      viewsSeen := 2, created := 2, pinStatements := 3, viewStatements := 2
      watermark := some afternoon } := by decide +kernel
  have hsmall := congrArg Prod.fst (eq_ok_of_toOption hsum)
  obtain ⟨hiff, hstore, _⟩ := Engine.batch_size_invisible shared .reset 0 5 rfl
  exact ⟨(hiff _).1 hsmall, hstore⟩

end PinLedger
