import PinLedger.Proofs.Dict
import PinLedger.Store.Basic

/-!
# PinLedger.Proofs.Store.Locks

The table of locks, as its sessions see it.

* `Store.Holds` — a session holds a lock
* `Holds.unique` — no lock has two holders
* `holds_tryLock`, `holds_unlock`, `holds_dropSession` — who holds what after each operation
* `unlock_of_not_holds`, `dropSession_of_not_holds` — what a session cannot change
-/

namespace PinLedger

namespace Store

variable {s : Store} {a b : SessionId} {k k' : Int}

/-- The table of locks lists the session at the key. -/
def Holds (s : Store) (a : SessionId) (k : Int) : Prop := (k, a) ∈ s.locks.entries

theorem holds_iff : s.Holds a k ↔ s.locks.find? k = some a := Dict.mem_entries

theorem Holds.unique (h : s.Holds a k) (h' : s.Holds b k) : a = b := by
  have hfind := holds_iff.1 h
  rw [holds_iff.1 h'] at hfind
  exact (Option.some.inj hfind).symm

/-! ### Nothing but locks changes -/

theorem tryLock_frame (s : Store) (a : SessionId) (k : Int) :
    (s.tryLock a k).2 = { s with locks := (s.tryLock a k).2.locks } := by
  unfold tryLock
  cases s.locks.find? k with
  | none => rfl
  | some holder => rfl

theorem unlock_frame (s : Store) (a : SessionId) (k : Int) :
    (s.unlock a k).2 = { s with locks := (s.unlock a k).2.locks } := by
  unfold unlock
  split
  · rfl
  · rfl

theorem data_tryLock (s : Store) (a : SessionId) (k : Int) : (s.tryLock a k).2.data = s.data := by
  rw [tryLock_frame]

theorem data_unlock (s : Store) (a : SessionId) (k : Int) : (s.unlock a k).2.data = s.data := by
  rw [unlock_frame]

theorem nextSession_tryLock (s : Store) (a : SessionId) (k : Int) :
    (s.tryLock a k).2.nextSession = s.nextSession := by
  rw [tryLock_frame]

theorem nextSession_unlock (s : Store) (a : SessionId) (k : Int) :
    (s.unlock a k).2.nextSession = s.nextSession := by
  rw [unlock_frame]

/-! ### What each operation does to the table -/

theorem holds_tryLock :
    (s.tryLock a k).2.Holds b k' ↔ s.Holds b k' ∨ b = a ∧ k' = k ∧ ∀ c, ¬ s.Holds c k := by
  unfold tryLock
  cases hfind : s.locks.find? k with
  | some holder =>
    constructor
    · intro h
      exact .inl h
    · rintro (h | ⟨_, _, hfree⟩)
      · exact h
      · exact absurd (holds_iff.2 hfind) (hfree holder)
  | none =>
    have hfree : ∀ c, ¬ s.Holds c k := by
      intro c hc
      rw [holds_iff, hfind] at hc
      cases hc
    rw [holds_iff, holds_iff, Dict.find?_insert]
    by_cases hk : k' = k
    · subst hk
      rw [if_pos rfl, hfind]
      constructor
      · intro h
        exact .inr ⟨(Option.some.inj h).symm, rfl, hfree⟩
      · rintro (h | ⟨rfl, _, _⟩)
        · cases h
        · rfl
    · rw [if_neg hk]
      constructor
      · intro h
        exact .inl h
      · rintro (h | ⟨_, heq, _⟩)
        · exact h
        · exact absurd heq hk

/-- The answer to a try is whether the session holds the lock then. -/
theorem tryLock_eq_true : (s.tryLock a k).1 = true ↔ (s.tryLock a k).2.Holds a k := by
  unfold tryLock
  cases hfind : s.locks.find? k with
  | some holder =>
    rw [holds_iff, hfind]
    simp [eq_comm]
  | none => simp [holds_iff]

theorem tryLock_of_false (h : (s.tryLock a k).1 = false) : (s.tryLock a k).2 = s := by
  unfold tryLock at h ⊢
  cases hfind : s.locks.find? k with
  | some holder => rfl
  | none =>
    rw [hfind] at h
    cases h

theorem holds_unlock :
    (s.unlock a k).2.Holds b k' ↔ s.Holds b k' ∧ ¬ (b = a ∧ k' = k) := by
  unfold unlock
  by_cases hheld : s.locks.find? k = some a
  · rw [if_pos hheld, holds_iff, holds_iff, Dict.find?_erase]
    by_cases hk : k' = k
    · subst hk
      rw [if_pos rfl, hheld]
      constructor
      · intro h
        cases h
      · rintro ⟨h, hother⟩
        exact absurd ⟨(Option.some.inj h).symm, rfl⟩ hother
    · rw [if_neg hk]
      constructor
      · intro h
        exact ⟨h, fun hsame => hk hsame.2⟩
      · exact And.left
  · rw [if_neg hheld]
    constructor
    · intro h
      refine ⟨h, ?_⟩
      rintro ⟨rfl, rfl⟩
      exact hheld (holds_iff.1 h)
    · exact And.left

/-- Only the holder frees a lock. -/
theorem unlock_of_not_holds (h : ¬ s.Holds a k) : s.unlock a k = (false, s) := by
  rw [holds_iff] at h
  unfold unlock
  rw [if_neg h]

theorem holds_dropSession : (s.dropSession a).Holds b k ↔ s.Holds b k ∧ b ≠ a := by
  unfold Holds dropSession Dict.filter
  simp

theorem dropSession_of_not_holds (h : ∀ k, ¬ s.Holds a k) : s.dropSession a = s := by
  have hkeep : s.locks.entries.filter (fun e => e.2 ≠ a) = s.locks.entries := by
    rw [List.filter_eq_self]
    rintro ⟨k, b⟩ hmem
    rw [decide_eq_true_iff]
    rintro rfl
    exact h k hmem
  have hsame : s.locks.filter (fun e => e.2 ≠ a) = s.locks := by
    unfold Dict.filter
    simp only [hkeep]
  unfold dropSession
  rw [hsame]

end Store

end PinLedger
