import PinLedger.Feed.Page

/-!
# PinLedger.Proofs.Feed.Latest

The latest of the told updates of some views: it is told by one of them, and none tells a later one.

* `le_latestUpdate` — no view tells a later update
* `mem_of_latestUpdate` — some view tells it
* `latestUpdate_perm` — it does not depend on the order of the views
-/

namespace PinLedger

namespace Instant

theorem le_latest_left (a b : Instant) : a ≤ a.latest b := by
  unfold latest
  split
  · assumption
  · exact Instant.le_refl a

theorem le_latest_right (a b : Instant) : b ≤ a.latest b := by
  unfold latest
  split
  · exact Instant.le_refl b
  · rename_i h
    exact (Instant.le_total a b).resolve_left h

theorem latest_eq (a b : Instant) : a.latest b = a ∨ a.latest b = b := by
  unfold latest
  split
  · exact .inr rfl
  · exact .inl rfl

/-- The latest of some instants and of `best`, if there is one. -/
def latestOf (best : Option Instant) (l : List Instant) : Option Instant :=
  l.foldl (fun best t => some (best.elim t (·.latest t))) best

theorem le_latestOf_best {b : Instant} (l : List Instant) :
    ∃ m, latestOf (some b) l = some m ∧ b ≤ m := by
  induction l generalizing b with
  | nil => exact ⟨b, rfl, Instant.le_refl b⟩
  | cons t l ih =>
    obtain ⟨m, hm, hle⟩ := ih (b := b.latest t)
    exact ⟨m, hm, Instant.le_trans (le_latest_left b t) hle⟩

theorem le_latestOf {t : Instant} (best : Option Instant) {l : List Instant} (h : t ∈ l) :
    ∃ m, latestOf best l = some m ∧ t ≤ m := by
  induction l generalizing best with
  | nil => cases h
  | cons u l ih =>
    rcases List.mem_cons.1 h with rfl | h
    · obtain ⟨m, hm, hle⟩ := le_latestOf_best (b := best.elim t (·.latest t)) l
      refine ⟨m, hm, Instant.le_trans ?_ hle⟩
      cases best with
      | none => exact Instant.le_refl t
      | some b => exact le_latest_right b t
    · exact ih _ h

theorem mem_of_latestOf {m : Instant} {best : Option Instant} {l : List Instant}
    (h : latestOf best l = some m) : best = some m ∨ m ∈ l := by
  induction l generalizing best with
  | nil => exact .inl h
  | cons u l ih =>
    rcases ih h with heq | hmem
    · have hu : best.elim u (·.latest u) = m := Option.some.inj heq
      cases best with
      | none => exact .inr (List.mem_cons.2 (.inl hu.symm))
      | some b =>
        rcases latest_eq b u with hb | hb
        · exact .inl (congrArg some (hb.symm.trans hu))
        · exact .inr (List.mem_cons.2 (.inl (hu.symm.trans hb)))
    · exact .inr (List.mem_cons_of_mem u hmem)

end Instant

variable {views : List RawView} {v : RawView} {t m : Instant}

/-- No view tells a later update than the latest. -/
theorem le_latestUpdate (hv : v ∈ views) (ht : v.lastUpdate = some t) :
    ∃ m, latestUpdate views = some m ∧ t ≤ m :=
  Instant.le_latestOf none (List.mem_filterMap.2 ⟨v, hv, ht⟩)

/-- The latest update is told by some view. -/
theorem mem_of_latestUpdate (h : latestUpdate views = some m) :
    ∃ v ∈ views, v.lastUpdate = some m := by
  rcases Instant.mem_of_latestOf h with heq | hmem
  · cases heq
  · exact List.mem_filterMap.1 hmem

theorem latestUpdate_le {views' : List RawView} (hsub : ∀ v ∈ views, v ∈ views')
    (h : latestUpdate views = some m) : ∃ m', latestUpdate views' = some m' ∧ m ≤ m' := by
  obtain ⟨v, hv, ht⟩ := mem_of_latestUpdate h
  exact le_latestUpdate (hsub v hv) ht

theorem latestUpdate_perm {views' : List RawView} (hp : views.Perm views') :
    latestUpdate views = latestUpdate views' := by
  have hsub : ∀ v ∈ views, v ∈ views' := fun v hv => hp.mem_iff.1 hv
  have hsub' : ∀ v ∈ views', v ∈ views := fun v hv => hp.mem_iff.2 hv
  cases h : latestUpdate views with
  | none =>
    cases h' : latestUpdate views' with
    | none => rfl
    | some m =>
      obtain ⟨m', hm', _⟩ := latestUpdate_le hsub' h'
      rw [h] at hm'
      cases hm'
  | some m =>
    obtain ⟨m', hm', hle⟩ := latestUpdate_le hsub h
    obtain ⟨m'', hm'', hle'⟩ := latestUpdate_le hsub' hm'
    rw [h] at hm''
    cases hm''
    rw [hm', Instant.le_antisymm hle hle']

end PinLedger
