import PinLedger.Proofs.Json.Reader

/-!
# PinLedger.Proofs.Json.Structure

Structures on the grammar, as objects of their fields and as lists of their values. Each member of
an object is one step of the reader, and members of no field are stepped over.

* `MembersRead` — what the members of an object read as, wherever they stand
* `MembersRead.known`, `MembersRead.unknown` — one member more
* `MembersRead.skip` — members that nobody asked for
* `Shape.steady` — a structure is steady if its fields are
-/

namespace PinLedger.Json

open Text

variable {α : Type} {sh : Shape α} {least : Nat} {s rest gap : List Char}

/-! ### Keys -/

theorem nextKey_end (first : Bool) (hgap : Blank gap) (rest : List Char) :
    nextKey first (gap ++ '\x7d' :: rest) = .ok (none, '\x7d' :: rest) := by
  unfold nextKey
  rw [skipBlank_append hgap]
  rfl

theorem nextKey_member {m : Member} {k : Except Reason String}
    (hk : ∀ rest, readString (m.key.body ++ '"' :: rest) = k.map (·, rest)) (first : Bool)
    (hgap : Blank gap) (rest : List Char) :
    nextKey first (gap ++ ((if first then m.text else ',' :: m.text) ++ rest)) =
      k.map (some ·, m.key.after ++ ':' :: (m.value.text ++ rest)) := by
  have hread := hk (m.key.after ++ ':' :: (m.value.text ++ rest))
  have hskip : skipBlank (m.text ++ rest) =
      '"' :: (m.key.body ++ '"' :: (m.key.after ++ ':' :: (m.value.text ++ rest))) := by
    unfold Member.text
    simp only [List.append_assoc, List.cons_append, skipBlank_append m.key.blank_before]
    rfl
  unfold nextKey
  cases first with
  | true =>
    simp only [if_true, skipBlank_append hgap, hskip, if_neg (show '"' ≠ '\x7d' by decide), hread,
      bind, Except.bind]
    cases k with
    | error r => rfl
    | ok k => rfl
  | false =>
    simp only [Bool.false_eq_true, if_false, List.cons_append, skipBlank_append hgap,
      skipBlank_cons (show isBlank ',' = false from rfl), hskip,
      if_neg (show ',' ≠ '\x7d' by decide), if_true, hread, bind, Except.bind]
    cases k with
    | error r => rfl
    | ok k => rfl

/-! ### Members -/

/-- The members of an object read as `x`, wherever they stand, if the fields `seen` came before. -/
def MembersRead (sh : Shape α) (least : Nat) (members : List Member) (a : α) (seen : List String)
    (x : Except Fault α) : Prop :=
  ∀ depth, least ≤ depth → ∀ fuel, members.length < fuel → ∀ first gap rest, Blank gap →
    sh.readMembers depth fuel first a seen
        (gap ++ (separated first (members.map Member.text) ++ '\x7d' :: rest)) =
      x.map (·, '\x7d' :: rest)

variable {m : Member} {members : List Member} {a : α} {seen : List String} {key : String}
  {x : Except Fault α}

/-- One step of the reader, for which there is fuel. -/
theorem membersRead_cons (h : ∀ depth, least ≤ depth → ∀ fuel, members.length < fuel →
    ∀ first gap rest, Blank gap → sh.readMembers depth (fuel + 1) first a seen
        (gap ++ ((if first then m.text else ',' :: m.text) ++
          (separated false (members.map Member.text) ++ '\x7d' :: rest))) =
      x.map (·, '\x7d' :: rest)) : MembersRead sh least (m :: members) a seen x := by
  intro depth hdepth fuel hfuel first gap rest hgap
  cases fuel with
  | zero => cases hfuel
  | succ fuel =>
    rw [List.map_cons, separated, List.append_assoc]
    exact h depth hdepth fuel (Nat.lt_of_succ_lt_succ hfuel) first gap rest hgap

theorem readMembers_end {depth : Nat} (fuel : Nat) (first : Bool) (hgap : Blank gap)
    (rest : List Char) :
    sh.readMembers depth (fuel + 1) first a seen (gap ++ '\x7d' :: rest) =
      match sh.missing? seen with
      | some name => here (.mismatch (.missingField name))
      | none => .ok (a, '\x7d' :: rest) := by
  unfold Shape.readMembers
  rw [nextKey_end first hgap]
  rfl

theorem membersRead_nil (h : sh.missing? seen = none) : MembersRead sh least [] a seen (.ok a) := by
  intro depth _ fuel hfuel first gap rest hgap
  obtain ⟨fuel, rfl⟩ := Nat.exists_eq_add_of_lt hfuel
  have hend : sh.readMembers depth (0 + fuel + 1) first a seen (gap ++ '\x7d' :: rest) = _ :=
    readMembers_end (0 + fuel) first hgap rest
  rw [h] at hend
  exact hend

theorem membersRead_missing {name : String} (h : sh.missing? seen = some name) :
    MembersRead sh least [] a seen (here (.mismatch (.missingField name))) := by
  intro depth _ fuel hfuel first gap rest hgap
  obtain ⟨fuel, rfl⟩ := Nat.exists_eq_add_of_lt hfuel
  have hend : sh.readMembers depth (0 + fuel + 1) first a seen (gap ++ '\x7d' :: rest) = _ :=
    readMembers_end (0 + fuel) first hgap rest
  rw [h] at hend
  exact hend

/-- A key that cannot be read is the end. -/
theorem membersRead_unread {r : Reason}
    (hk : ∀ rest, readString (m.key.body ++ '"' :: rest) = .error r) :
    MembersRead sh least (m :: members) a seen (.error ⟨[.unread], r⟩) := by
  refine membersRead_cons fun depth _ fuel _ first gap rest hgap => ?_
  unfold Shape.readMembers
  rw [nextKey_member (k := .error r) hk first hgap]
  rfl

section Keys

variable (hk : ∀ rest, readString (m.key.body ++ '"' :: rest) = .ok (key, rest))

include hk

theorem membersRead_duplicate {f : Field α} (hf : sh.field? key = some f) (hseen : f.name ∈ seen) :
    MembersRead sh least (m :: members) a seen (here (.mismatch (.duplicateField f.name))) := by
  refine membersRead_cons fun depth _ fuel _ first gap rest hgap => ?_
  unfold Shape.readMembers
  rw [nextKey_member (k := .ok key) hk first hgap]
  simp only [atHere, within, Except.map, Except.mapError, bind, Except.bind, hf, if_pos hseen]
  rfl

/-- The value of a field that cannot be read is the end as well. -/
theorem membersRead_fault {f : Field α} (hf : sh.field? key = some f) (hseen : f.name ∉ seen)
    {fault : Fault} (hx : Settles f.read least m.value.body (.error fault)) :
    MembersRead sh least (m :: members) a seen (within (.key key) (.error fault)) := by
  refine membersRead_cons fun depth hdepth fuel _ first gap rest hgap => ?_
  have hvalue := hx.padded hdepth blank_nil
    (ends_separated (c := '\x7d') rfl (members.map Member.text) rest)
  rw [List.nil_append] at hvalue
  rw [Shape.readMembers, nextKey_member (k := .ok key) hk first hgap]
  simp only [atHere, within, Except.map, Except.mapError, bind, Except.bind, hf, if_neg hseen,
    readColon_append m.key.blank_after, hvalue]

theorem MembersRead.known {f : Field α} (hf : sh.field? key = some f) (hseen : f.name ∉ seen)
    {change : α → α} (hx : Settles f.read least m.value.body (.ok change))
    (h : MembersRead sh least members (change a) (f.name :: seen) x) :
    MembersRead sh least (m :: members) a seen x := by
  refine membersRead_cons fun depth hdepth fuel hfuel first gap rest hgap => ?_
  have hvalue := hx.padded hdepth blank_nil
    (ends_separated (c := '\x7d') rfl (members.map Member.text) rest)
  rw [List.nil_append] at hvalue
  rw [Shape.readMembers, nextKey_member (k := .ok key) hk first hgap]
  simp only [atHere, within, Except.map, Except.mapError, bind, Except.bind, hf, if_neg hseen,
    readColon_append m.key.blank_after, hvalue]
  exact h depth hdepth fuel hfuel false _ rest m.value.blank_after

/-- A member of no field is stepped over. -/
theorem MembersRead.unknown (hf : sh.field? key = none) (hm : IsValue m.value.body)
    (h : MembersRead sh least members a seen x) : MembersRead sh least (m :: members) a seen x := by
  refine membersRead_cons fun depth hdepth fuel hfuel first gap rest hgap => ?_
  have hskip := skipValue_append hm
    (ends_separated (c := '\x7d') rfl (members.map Member.text) rest)
  rw [Shape.readMembers, nextKey_member (k := .ok key) hk first hgap]
  simp only [atHere, within, Except.map, Except.mapError, bind, Except.bind, hf,
    readColon_append m.key.blank_after, hskip]
  exact h depth hdepth fuel hfuel false _ rest m.value.blank_after

end Keys

/-- A member that is of no field of the structure, under a key that can be read. -/
def Foreign (sh : Shape α) (m : Member) : Prop :=
  IsValue m.value.body ∧ ∃ key : String, Spells m.key.body key.toList ∧ sh.field? key = none

/-- The members that nobody asked for are stepped over, wherever they stand. -/
theorem MembersRead.skip {before : List Member} (hbefore : ∀ n ∈ before, Foreign sh n)
    (h : MembersRead sh least members a seen x) :
    MembersRead sh least (before ++ members) a seen x := by
  induction before with
  | nil => exact h
  | cons n before ih =>
    obtain ⟨hvalue, key, hkey, hf⟩ := hbefore n List.mem_cons_self
    have hrest := ih fun q hq => hbefore q (List.mem_cons_of_mem n hq)
    exact hrest.unknown (readString_of_spells hkey) hf hvalue

/-- The members of an object read as something, wherever they stand. -/
theorem exists_membersRead (hfields : ∀ f ∈ sh.fields, Steady f.read least)
    (h : ∀ n ∈ members, IsString n.key.body ∧ IsValue n.value.body) (a : α) (seen : List String) :
    ∃ x, MembersRead sh least members a seen x := by
  induction members generalizing a seen with
  | nil =>
    cases hmissing : sh.missing? seen with
    | some name => exact ⟨_, membersRead_missing hmissing⟩
    | none => exact ⟨_, membersRead_nil hmissing⟩
  | cons m members ih =>
    have ih := ih fun n hn => h n (List.mem_cons_of_mem m hn)
    obtain ⟨hkey, hvalue⟩ := h m List.mem_cons_self
    obtain ⟨k, hk⟩ := takes_readString hkey
    cases k with
    | error r => exact ⟨_, membersRead_unread hk⟩
    | ok key =>
      cases hf : sh.field? key with
      | none =>
        obtain ⟨x, hx⟩ := ih a seen
        exact ⟨x, hx.unknown hk hf hvalue⟩
      | some f =>
        by_cases hseen : f.name ∈ seen
        · exact ⟨_, membersRead_duplicate hk hf hseen⟩
        · obtain ⟨y, hy⟩ := hfields f (List.mem_of_find?_eq_some hf) _ hvalue
          cases y with
          | error fault => exact ⟨_, membersRead_fault hk hf hseen hy⟩
          | ok change =>
            obtain ⟨x, hx⟩ := ih (change a) (f.name :: seen)
            exact ⟨x, hx.known hk hf hseen hy⟩

/-! ### Lists of values -/

theorem closeList_end (hgap : Blank gap) (rest : List Char) :
    closeList (gap ++ ']' :: rest) = .ok rest := by
  unfold closeList
  rw [skipBlank_append hgap]
  rfl

/-- A list that goes on has not ended. -/
theorem closeList_item {p : Padded} (hp : Starts p.body) (first : Bool) (hgap : Blank gap)
    (rest : List Char) :
    closeList (gap ++ ((if first then p.text else ',' :: p.text) ++ rest)) =
      .error .trailingCharacters := by
  unfold closeList
  cases first with
  | true =>
    obtain ⟨c, t, _, hc, hskip⟩ := hp.padded hgap rest
    obtain ⟨_, hcomma, hclose, _⟩ := isEnd_eq_false hc
    simp only [if_true, hskip, if_neg hclose]
    exact if_neg fun h => hcomma h.1
  | false =>
    obtain ⟨c, t, _, hc, hskip⟩ := hp.padded blank_nil rest
    have hclose := (isEnd_eq_false hc).2.2.1
    rw [List.nil_append] at hskip
    simp only [Bool.false_eq_true, if_false, List.cons_append, skipBlank_append hgap,
      skipBlank_cons (show isBlank ',' = false from rfl), hskip, List.head?_cons, Option.some.injEq]
    rw [if_neg (by decide)]
    exact if_neg fun h => hclose h.2

/-- The values of a list read as something, wherever they stand, up to the end of the list. -/
theorem exists_readPositional (sh : Shape α) {fields : List (Field α)}
    (hfields : ∀ f ∈ fields, Steady f.read least) {items : List Padded}
    (h : ∀ p ∈ items, IsValue p.body) (i : Nat) (a : α) :
    ∃ x : Except Fault α, ∀ depth, least ≤ depth → ∀ gap rest, Blank gap →
      (do
        let (a, s) ← sh.readPositional depth i fields a
          (gap ++ (separated (i = 0) (items.map Padded.text) ++ ']' :: rest))
        let s ← atHere (closeList s)
        .ok (a, s)) = x.map (·, rest) := by
  induction fields generalizing items i a with
  | nil =>
    cases items with
    | nil =>
      refine ⟨.ok a, fun depth _ gap rest hgap => ?_⟩
      simp only [Shape.readPositional, List.map_nil, separated, List.nil_append, bind, Except.bind,
        closeList_end hgap]
      rfl
    | cons p items =>
      refine ⟨here .trailingCharacters, fun depth _ gap rest hgap => ?_⟩
      simp only [Shape.readPositional, List.map_cons, separated, List.append_assoc, bind,
        Except.bind, closeList_item (h p List.mem_cons_self).starts _ hgap]
      rfl
  | cons f fields ih =>
    have ih := @ih fun g hg => hfields g (List.mem_cons_of_mem f hg)
    cases items with
    | nil =>
      cases hrequired : f.required with
      | true =>
        refine ⟨here (.mismatch (.invalidLength i (describeStructure sh.name sh.fields.length))),
          fun depth _ gap rest hgap => ?_⟩
        simp only [Shape.readPositional, List.map_nil, separated, List.nil_append,
          nextItem_end _ hgap, hrequired]
        rfl
      | false =>
        obtain ⟨x, hx⟩ := @ih [] (List.forall_mem_nil _) (i + 1) a
        refine ⟨x, fun depth hdepth gap rest hgap => ?_⟩
        refine Eq.trans ?_ (hx depth hdepth [] rest blank_nil)
        simp only [Shape.readPositional, List.map_nil, separated, List.nil_append,
          nextItem_end _ hgap, hrequired]
        rfl
    | cons p items =>
      have hp := h p List.mem_cons_self
      obtain ⟨y, hy⟩ := hfields f List.mem_cons_self p.body hp
      have hread : ∀ depth, least ≤ depth → ∀ rest,
          f.read depth (p.body ++ (p.after ++
            (separated false (items.map Padded.text) ++ ']' :: rest))) =
            y.map (·, p.after ++ (separated false (items.map Padded.text) ++ ']' :: rest)) :=
        fun depth hdepth rest =>
          hy depth hdepth [] _ blank_nil ((ends_separated rfl _ _).append p.blank_after)
      cases y with
      | error fault =>
        refine ⟨within (.index i) (.error fault), fun depth hdepth gap rest hgap => ?_⟩
        simp only [Shape.readPositional, List.map_cons, separated, List.append_assoc,
          nextItem_item hp.starts _ hgap, atHere, Except.mapError, bind, Except.bind,
          hread depth hdepth rest]
        rfl
      | ok change =>
        obtain ⟨x, hx⟩ := ih (fun q hq => h q (List.mem_cons_of_mem p hq)) (i + 1) (change a)
        refine ⟨x, fun depth hdepth gap rest hgap => ?_⟩
        have hrest := hx depth hdepth p.after rest p.blank_after
        simp only [Nat.add_one_ne_zero, decide_false] at hrest
        refine Eq.trans ?_ hrest
        simp only [Shape.readPositional, List.map_cons, separated, List.append_assoc,
          nextItem_item hp.starts _ hgap, atHere, Except.mapError, bind, Except.bind,
          hread depth hdepth rest]
        rfl

/-! ### Whole structures -/

/-- A structure that stands as an object reads as its members do. -/
theorem MembersRead.settles (h : MembersRead sh least members sh.blank [] x) (hgap : Blank gap) :
    Settles sh.reader (least + 2) (objectText gap members) x := by
  intro depth hdepth gap' rest hgap' _
  have hlen : members.length ≤ (separated true (members.map Member.text)).length := by
    refine Nat.le_trans (Nat.le_of_eq (List.length_map _).symm) (length_le_separated ?_ true)
    intro s hs
    obtain ⟨m, _, rfl⟩ := List.mem_map.1 hs
    rw [m.length_text]
    omega
  have hread := fun (fuel : Nat) (hfuel : members.length < fuel) =>
    h (depth - 1) (by omega) fuel hfuel true gap rest hgap
  unfold objectText Shape.reader
  rw [joined_eq_separated, List.cons_append, skipBlank_append hgap',
    skipBlank_cons (show isBlank '\x7b' = false from rfl)]
  simp only [List.append_assoc, List.cons_append, List.nil_append]
  rw [if_neg (by decide), if_true, if_neg (by omega),
    hread _ (by simp only [List.length_append, List.length_cons]; omega)]
  cases x with
  | error f => rfl
  | ok a => rfl

/-- A structure reads as something from every element if each of its fields does. -/
theorem Shape.steady (hfields : ∀ f ∈ sh.fields, Steady f.read least) :
    Steady sh.reader (least + 2) := by
  intro s hs
  have hstarts := hs.starts
  have hmisfit : ∀ c t, s = c :: t → c ≠ '[' → c ≠ '\x7b' →
      ∃ x, Settles sh.reader (least + 2) s x := by
    rintro c t rfl hlist hobject
    obtain ⟨x, hx⟩ := settles_misfit s!"struct {sh.name}" hs (r := sh.reader)
      fun depth gap rest hgap => by
        unfold Shape.reader
        rw [hstarts.skipBlank hgap]
        simp only [List.cons_append, if_neg hlist, if_neg hobject]
    exact ⟨x, hx.mono (Nat.zero_le _)⟩
  cases hs with
  | null => exact hmisfit _ _ rfl (by decide) (by decide)
  | yes => exact hmisfit _ _ rfl (by decide) (by decide)
  | no => exact hmisfit _ _ rfl (by decide) (by decide)
  | text _ => exact hmisfit _ _ rfl (by decide) (by decide)
  | number h =>
    obtain ⟨c, t, rfl, hc⟩ := h.starts
    exact hmisfit c t rfl (number_head hc).2.2.2.2.1 (number_head hc).2.2.2.2.2
  | @list gap items hgap h =>
    obtain ⟨x, hx⟩ := exists_readPositional sh hfields h 0 sh.blank
    refine ⟨x, fun depth hdepth gap' rest hgap' _ => ?_⟩
    rw [← hx (depth - 1) (by omega) gap rest hgap]
    unfold listText Shape.reader
    rw [joined_eq_separated, List.cons_append, skipBlank_append hgap',
      skipBlank_cons (show isBlank '[' = false from rfl)]
    simp only [List.append_assoc, List.cons_append, List.nil_append, decide_true]
    rw [if_true, if_neg (by omega)]
  | @object gap members hgap hkeys h =>
    obtain ⟨x, hx⟩ := exists_membersRead hfields (fun m hm => ⟨hkeys m hm, h m hm⟩) sh.blank []
    exact ⟨x, hx.settles hgap⟩

/-- An object in which nothing but one member is of a field reads as that member says. -/
theorem settles_lone {f : Field α} {before after : List Member} {x : Except Fault (α → α)}
    (hgap : Blank gap) (hbefore : ∀ n ∈ before, Foreign sh n) (hafter : ∀ n ∈ after, Foreign sh n)
    (hkey : Spells m.key.body key.toList) (hf : sh.field? key = some f)
    (hx : Settles f.read least m.value.body x) (hmissing : sh.missing? [f.name] = none) :
    Settles sh.reader (least + 2) (objectText gap (before ++ m :: after))
      ((within (.key key) x).map fun change => change sh.blank) := by
  have hk := readString_of_spells hkey
  cases x with
  | error fault =>
    exact ((membersRead_fault hk hf List.not_mem_nil hx).skip hbefore).settles hgap
  | ok change =>
    have hrest : MembersRead sh least (after ++ []) (change sh.blank) [f.name]
        (.ok (change sh.blank)) := (membersRead_nil hmissing).skip hafter
    rw [List.append_nil] at hrest
    exact ((hrest.known hk hf List.not_mem_nil hx).skip hbefore).settles hgap

end PinLedger.Json
