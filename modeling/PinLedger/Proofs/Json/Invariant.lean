import PinLedger.Json.Reader
import PinLedger.Proofs.Failing

/-!
# PinLedger.Proofs.Json.Invariant

What holds of every structure that has been read. It holds of the blank one, and each change that a
field makes keeps it.

* `Field.Keeps` — one change
* `Shape.reader_keeps`, `Shape.readDocument_keeps` — the whole structure
-/

namespace PinLedger.Json

variable {α : Type} {P : α → Prop}

/-- Whatever is read for the field, its change keeps the property. -/
def Field.Keeps (P : α → Prop) (f : Field α) : Prop :=
  ∀ depth s change rest, f.read depth s = .ok (change, rest) → ∀ a, P a → P (change a)

variable {sh : Shape α} (hsh : ∀ f ∈ sh.fields, f.Keeps P)

include hsh

theorem Shape.readMembers_keeps {depth fuel : Nat} {first : Bool} {a b : α} {seen : List String}
    {s rest : List Char} (ha : P a)
    (h : sh.readMembers depth fuel first a seen s = .ok (b, rest)) : P b := by
  induction fuel generalizing first a seen s with
  | zero => cases h
  | succ fuel ih =>
    obtain ⟨⟨key, s⟩, _, h⟩ := bind_eq_ok.1 h
    cases key with
    | none =>
      dsimp only at h
      split at h
      · cases h
      · cases h
        exact ha
    | some key =>
      dsimp only at h
      split at h
      case h_1 f hf =>
        split at h
        · cases h
        obtain ⟨s, _, h⟩ := bind_eq_ok.1 h
        obtain ⟨⟨change, s⟩, hread, h⟩ := bind_eq_ok.1 h
        have hread := mapError_eq_ok.1 hread
        exact ih (hsh f (List.mem_of_find?_eq_some hf) _ _ _ _ hread a ha) h
      case h_2 =>
        obtain ⟨s, _, h⟩ := bind_eq_ok.1 h
        obtain ⟨s, _, h⟩ := bind_eq_ok.1 h
        exact ih ha h

theorem Shape.readPositional_keeps {depth i : Nat} {fields : List (Field α)}
    (hfields : ∀ f ∈ fields, f ∈ sh.fields) {a b : α} {s rest : List Char} (ha : P a)
    (h : sh.readPositional depth i fields a s = .ok (b, rest)) : P b := by
  induction fields generalizing i a s with
  | nil =>
    cases h
    exact ha
  | cons f fields ih =>
    have htail : ∀ g ∈ fields, g ∈ sh.fields := fun g hg => hfields g (List.mem_cons_of_mem f hg)
    obtain ⟨⟨more, s⟩, _, h⟩ := bind_eq_ok.1 h
    cases more with
    | true =>
      obtain ⟨⟨change, s⟩, hread, h⟩ := bind_eq_ok.1 h
      have hread := mapError_eq_ok.1 hread
      exact ih htail (hsh f (hfields f List.mem_cons_self) _ _ _ _ hread a ha) h
    | false =>
      dsimp only at h
      split at h
      · cases h
      · exact ih htail ha h

theorem Shape.reader_keeps (hblank : P sh.blank) {depth : Nat} {a : α} {s rest : List Char}
    (h : sh.reader depth s = .ok (a, rest)) : P a := by
  unfold Shape.reader at h
  split at h
  · cases h
  split at h
  · split at h
    · cases h
    obtain ⟨⟨b, s⟩, hread, h⟩ := bind_eq_ok.1 h
    obtain ⟨s, _, h⟩ := bind_eq_ok.1 h
    cases h
    exact readPositional_keeps hsh (fun _ hf => hf) hblank hread
  split at h
  · split at h
    · cases h
    obtain ⟨⟨b, s⟩, hread, h⟩ := bind_eq_ok.1 h
    obtain ⟨s, _, h⟩ := bind_eq_ok.1 h
    cases h
    exact readMembers_keeps hsh hblank hread
  · cases h

theorem Shape.readDocument_keeps (hblank : P sh.blank) {a : α} {text : String}
    (h : sh.readDocument text = .ok a) : P a := by
  obtain ⟨⟨b, rest⟩, hread, rfl⟩ := map_eq_ok.1 h
  exact reader_keeps hsh hblank hread

end PinLedger.Json
