import PinLedger.Feed.Page
import PinLedger.Proofs.Json.Writer

/-!
# PinLedger.Proofs.Feed.Page

A page is decoded whole or not at all. What comes of it is what comes of its elements, each read by
itself, up to the first that cannot be read. Members that nobody asked for have no part in it.

* `steady_rawView` — a view reads as the same wherever it stands
* `pageAmid`, `decodePage_pageAmid` — a page amid further members, and what comes of it
* `Blames` — the first element that cannot be read
* `page_whole` — the views of a page, or the element to blame
-/

namespace PinLedger

open Json Text

variable {α β : Type}

theorem exists_map_ok {f : β → Except Fault α} {l : List β} :
    (∃ as : List α, l.map f = as.map .ok) ↔ ∀ b ∈ l, ∃ a, f b = .ok a := by
  induction l with
  | nil => exact ⟨fun _ => List.forall_mem_nil _, fun _ => ⟨[], rfl⟩⟩
  | cons b l ih =>
    constructor
    · rintro ⟨as, h⟩
      cases as with
      | nil => cases h
      | cons a as =>
        obtain ⟨ha, has⟩ := List.cons.inj h
        intro b' hb'
        rcases List.mem_cons.1 hb' with rfl | hb'
        · exact ⟨a, ha⟩
        · exact ih.1 ⟨as, has⟩ b' hb'
    · intro h
      obtain ⟨a, ha⟩ := h b List.mem_cons_self
      obtain ⟨as, has⟩ := ih.2 fun b' hb' => h b' (List.mem_cons_of_mem b hb')
      exact ⟨a :: as, by rw [List.map_cons, List.map_cons, ha, has]⟩

/-! ### Views -/

theorem Json.Settles.fieldOf {r : Json.Reader α} {least : Nat} {s : List Char} {x : Except Fault α}
    {put : α → β → β} (name : String) (required : Bool) (h : Settles r least s x) :
    Settles (Json.fieldOf name required r put).read least s (x.map put) := by
  intro depth hdepth gap rest hgap hrest
  show (r depth (gap ++ (s ++ rest))).map _ = _
  rw [h depth hdepth gap rest hgap hrest]
  cases x with
  | error f => rfl
  | ok a => rfl

theorem Json.Steady.fieldOf {r : Json.Reader α} {least : Nat} {put : α → β → β} (name : String)
    (required : Bool) (h : Steady r least) :
    Steady (Json.fieldOf name required r put).read least := by
  intro s hs
  obtain ⟨x, hx⟩ := h s hs
  exact ⟨_, hx.fieldOf name required⟩

theorem steady_rawView : Steady RawView.shape.reader 2 := by
  refine @Shape.steady _ _ 0 fun f hf => ?_
  simp only [RawView.shape, List.mem_cons, List.not_mem_nil, or_false] at hf
  rcases hf with rfl | rfl | rfl | rfl
  · exact steady_readInt.fieldOf "id" true
  · exact steady_readBool.fieldOf "disabled" false
  · exact steady_readText.fieldOf "preference" true
  · show Steady (Json.fieldOf "lastUpdate" false (optional readInstant)
      fun x (v : RawView) => { v with lastUpdate := x }).read 0
    exact steady_readInstant.optional.fieldOf "lastUpdate" false

/-- The element as a document of its own. -/
def Json.Padded.document (p : Padded) : String := String.ofList p.text

/-- An element reads as it does as a document of its own. -/
theorem settles_document {sh : Shape α} {least : Nat} (h : Steady sh.reader least)
    (hleast : least ≤ maxDepth) {p : Padded} (hp : IsValue p.body) :
    Settles sh.reader least p.body (sh.readDocument p.document) := by
  obtain ⟨x, hx⟩ := h p.body hp
  have hown : sh.readDocument p.document = x := by
    have hread := hx.padded hleast blank_nil ends_nil
    simp only [List.nil_append, List.append_nil] at hread
    unfold Shape.readDocument Json.Padded.document
    rw [String.toList_ofList, hread]
    cases x with
    | error f => rfl
    | ok a => rfl
  rw [hown]
  exact hx

/-! ### Pages -/

/-- The page of some elements. -/
def pageOf (es : List Padded) : String :=
  String.ofList ("\x7b\"_embedded\":\x7b\"preferences\":[".toList ++
    (joined [','] (es.map Padded.text) ++ "]\x7d\x7d".toList))

/-- The member of a name. -/
def Json.Member.named (name : String) (value : List Char) : Member :=
  ⟨.bare name.toList, .bare value⟩

/-- The page of some elements, amid further members, of which the first come before and the second
after: `outer` at the top, and `inner` beside the elements. -/
def pageAmid (outer inner : List Member × List Member) (es : List Padded) : String :=
  String.ofList (objectText [] (outer.1 ++
    .named "_embedded" (objectText [] (inner.1 ++
      .named "preferences" (listText [] es) :: inner.2)) :: outer.2))

theorem Json.Member.text_named (name : String) (value : List Char) :
    (Member.named name value).text = '"' :: (name.toList ++ '"' :: ':' :: value) := by
  simp [Member.named, Member.text, Padded.bare, Padded.text]

theorem objectText_singleton (m : Member) : objectText [] [m] = '\x7b' :: (m.text ++ ['\x7d']) :=
  rfl

theorem pageOf_eq (es : List Padded) : pageOf es = pageAmid ([], []) ([], []) es := by
  have hopen : "\x7b\"_embedded\":\x7b\"preferences\":[".toList =
      '\x7b' :: '"' :: ("_embedded".toList ++ '"' :: ':' :: '\x7b' :: '"' ::
        ("preferences".toList ++ ['"', ':', '['])) := by decide +kernel
  have hclose : "]\x7d\x7d".toList = [']', '\x7d', '\x7d'] := by decide +kernel
  unfold pageOf pageAmid
  rw [hopen, hclose, List.nil_append, List.nil_append, objectText_singleton, objectText_singleton,
    Member.text_named, Member.text_named]
  generalize "_embedded".toList = a, "preferences".toList = b
  simp only [listText, List.nil_append, List.append_assoc, List.cons_append]

/-- A member that is well-formed, under a key that can be read and is not this one. -/
def Json.Member.Beside (name : String) (m : Member) : Prop :=
  IsValue m.value.body ∧ ∃ key : String, Spells m.key.body key.toList ∧ key ≠ name

/-- A name without quotes, backslashes and control characters spells itself. -/
theorem Json.Member.spells_named {name : String} (h : name.toList.flatMap escaped = name.toList)
    (value : List Char) : Spells (Member.named name value).key.body name.toList := by
  have hname := spells_escaped name.toList
  rw [h] at hname
  exact hname

theorem foreign_of_beside {sh : Shape α} {m : Member} {name : String}
    (hsh : ∀ key, key ≠ name → sh.field? key = none) (h : m.Beside name) : Foreign sh m := by
  obtain ⟨hvalue, key, hkey, hne⟩ := h
  exact ⟨hvalue, key, hkey, hsh key hne⟩

/-- A structure of a single field, in an object that has its member and others. -/
theorem settles_named {name : String} {r : Json.Reader α} (put : α → β → β) (sh : Shape β)
    {least : Nat} {value : List Char} {x : Except Fault α} {around : List Member × List Member}
    (hsh : sh.fields = [Json.fieldOf name false r put])
    (hname : name.toList.flatMap escaped = name.toList)
    (haround : ∀ m ∈ around.1 ++ around.2, m.Beside name) (hx : Settles r least value x) :
    Settles sh.reader (least + 2)
      (objectText [] (around.1 ++ .named name value :: around.2))
      ((within (.key name) x).map fun a => put a sh.blank) := by
  have hother : ∀ key, key ≠ name → sh.field? key = none := by
    intro key hne
    simp [Shape.field?, hsh, Json.fieldOf, hne.symm]
  have hfield : sh.field? name = some (Json.fieldOf name false r put) := by
    simp [Shape.field?, hsh, Json.fieldOf]
  have hmissing : sh.missing? [name] = none := by
    simp [Shape.missing?, hsh, Json.fieldOf]
  have hlone := settles_lone (m := .named name value) blank_nil
    (fun m hm => foreign_of_beside hother (haround m (List.mem_append_left _ hm)))
    (fun m hm => foreign_of_beside hother (haround m (List.mem_append_right _ hm)))
    (Member.spells_named hname value) hfield (hx.fieldOf name false) hmissing
  cases x with
  | error f => exact hlone
  | ok a => exact hlone

theorem starts_objectText (gap : List Char) (members : List Member) :
    Starts (objectText gap members) := ⟨_, _, rfl, rfl⟩

/-- What comes of a page is what comes of its elements. -/
theorem decodePage_pageAmid {outer inner : List Member × List Member} {es : List Padded}
    (houter : ∀ m ∈ outer.1 ++ outer.2, m.Beside "_embedded")
    (hinner : ∀ m ∈ inner.1 ++ inner.2, m.Beside "preferences") (hes : ∀ p ∈ es, IsValue p.body) :
    decodePage (pageAmid outer inner es) =
      (within (.key "_embedded") (within (.key "preferences")
        (gathered 0 (es.map fun p => RawView.shape.readDocument p.document)))).mapError
          .envelope := by
  have hviews : ∀ q ∈ es.map fun p => (p, RawView.shape.readDocument p.document),
      Starts q.1.body ∧ Settles RawView.shape.reader 2 q.1.body q.2 := by
    intro q hq
    obtain ⟨p, hp, rfl⟩ := List.mem_map.1 hq
    exact ⟨(hes p hp).starts, settles_document steady_rawView (by decide) (hes p hp)⟩
  have hlist := settles_listOf hviews blank_nil
  simp only [List.map_map, Function.comp_def, List.map_id'] at hlist
  have hembedded := settles_named (fun x _ => x) embeddedShape rfl (by decide +kernel)
    hinner hlist
  have hpage := settles_named (fun x _ => x.getD []) pageShape rfl (by decide +kernel)
    houter (hembedded.optional (starts_objectText _ _) (by simp [objectText]))
  have hread := hpage maxDepth (by decide) [] [] blank_nil ends_nil
  simp only [List.nil_append, List.append_nil] at hread
  generalize gathered 0 (es.map fun p => RawView.shape.readDocument p.document) = read at hread ⊢
  unfold decodePage Shape.readDocument pageAmid
  rw [String.toList_ofList, hread]
  cases read with
  | error f => rfl
  | ok raws => rfl

/-- The page is refused because of its `i`-th element, which cannot be read, while all elements
before it can. -/
structure Blames (es : List Padded) (i : Nat) (err : FeedError) : Prop where
  element : ∃ p own, es[i]? = some p ∧ RawView.shape.readDocument p.document = .error own ∧
    err = .envelope ⟨.key "_embedded" :: .key "preferences" :: .index i :: own.path, own.reason⟩
  before : ∀ p ∈ es.take i, ∃ raw, RawView.shape.readDocument p.document = .ok raw
  text : ∃ rest, err.message = s!"Malformed feed envelope at _embedded.preferences[{i}]" ++ rest

theorem message_of_index (i : Nat) (path : Path) (reason : Reason) :
    ∃ rest, (FeedError.envelope
        ⟨.key "_embedded" :: .key "preferences" :: .index i :: path, reason⟩).message =
      s!"Malformed feed envelope at _embedded.preferences[{i}]" ++ rest := by
  refine ⟨renderSegments false path ++ ": " ++ reason.message, ?_⟩
  have hmessage : ∀ f, (FeedError.envelope f).message =
      s!"Malformed feed envelope at {renderPath f.path}: {f.reason.message}" := fun _ => rfl
  have htoString : ∀ s : String, toString s = s := fun _ => rfl
  have htext : "Malformed feed envelope at _embedded.preferences[" =
      "Malformed feed envelope at " ++ ("_embedded" ++ ("." ++ ("preferences" ++ "["))) := by
    decide +kernel
  simp only [hmessage, renderPath, renderSegments, List.isEmpty_cons, htoString, htext,
    String.append_assoc, if_true, if_false, Bool.false_eq_true, String.empty_append]

theorem blames_iff {es : List Padded} {err : FeedError} :
    (within (.key "_embedded") (within (.key "preferences")
        (gathered 0 (es.map fun p => RawView.shape.readDocument p.document)))).mapError
          FeedError.envelope = .error err ↔ ∃ i, Blames es i err := by
  constructor
  · intro h
    cases hread : gathered 0 (es.map fun p => RawView.shape.readDocument p.document) with
    | ok raws =>
      rw [hread] at h
      cases h
    | error f =>
      rw [hread] at h
      cases h
      obtain ⟨as, own, back, hes, rfl⟩ := (gathered_eq_error 0).1 hread
      obtain ⟨front, rest, rfl, hfront, hrest⟩ := List.map_eq_append_iff.1 hes
      obtain ⟨p, tail, rfl, hp, _⟩ := List.map_eq_cons_iff.1 hrest
      have hlen : as.length = front.length := by
        have hlen := congrArg List.length hfront
        simpa using hlen.symm
      refine ⟨front.length, ⟨p, own, by simp, hp, ?_⟩, ?_, ?_⟩
      · rw [Nat.zero_add, hlen]
        rfl
      · rw [List.take_left]
        exact exists_map_ok.1 ⟨as, hfront⟩
      · rw [Nat.zero_add, hlen]
        exact message_of_index front.length own.path own.reason
  · rintro ⟨i, ⟨p, own, hp, hown, rfl⟩, hbefore, _⟩
    obtain ⟨as, has⟩ := exists_map_ok.2 hbefore
    obtain ⟨hi, rfl⟩ := List.getElem?_eq_some_iff.1 hp
    have hlen : as.length = i := by
      have hlen := congrArg List.length has
      rw [List.length_map, List.length_map, List.length_take] at hlen
      omega
    have hsplit : es = es.take i ++ es[i] :: es.drop (i + 1) := by
      rw [List.getElem_cons_drop, List.take_append_drop]
    have hes : es.map (fun p => RawView.shape.readDocument p.document) =
        as.map .ok ++ .error own ::
          (es.drop (i + 1)).map fun p => RawView.shape.readDocument p.document := by
      refine (congrArg (List.map _) hsplit).trans ?_
      rw [List.map_append, List.map_cons, has, hown]
    rw [(gathered_eq_error 0).2 ⟨as, own, _, hes, rfl⟩, hlen, Nat.zero_add]
    rfl

/-- **A page is decoded whole or not at all.** Its elements are well-formed, with blanks around
them. The page is decoded if and only if each of them can be read by itself, into just these views in
their order. If it is refused, then because of the first element that cannot be read, and the path
says which. Further members at the top and beside the elements, under any other keys, change
nothing. -/
theorem page_whole {es : List Padded} (hes : ∀ p ∈ es, IsValue p.body)
    {outer inner : List Member × List Member}
    (houter : ∀ m ∈ outer.1 ++ outer.2, m.Beside "_embedded")
    (hinner : ∀ m ∈ inner.1 ++ inner.2, m.Beside "preferences") :
    ((∃ raws, decodePage (pageOf es) = .ok raws) ↔
        ∀ p ∈ es, ∃ raw, RawView.shape.readDocument p.document = .ok raw) ∧
      (∀ raws, decodePage (pageOf es) = .ok raws ↔
        es.map (fun p => RawView.shape.readDocument p.document) = raws.map .ok) ∧
      (∀ err, decodePage (pageOf es) = .error err ↔ ∃ i, Blames es i err) ∧
      decodePage (pageAmid outer inner es) = decodePage (pageOf es) := by
  have hplain := @decodePage_pageAmid ([], []) ([], []) es (List.forall_mem_nil _)
    (List.forall_mem_nil _) hes
  have hok : ∀ raws, decodePage (pageOf es) = .ok raws ↔
      es.map (fun p => RawView.shape.readDocument p.document) = raws.map .ok := by
    intro raws
    rw [pageOf_eq, hplain, mapError_eq_ok, within, mapError_eq_ok, within, mapError_eq_ok,
      gathered_eq_ok]
  refine ⟨?_, hok, fun err => ?_, ?_⟩
  · rw [← exists_map_ok]
    exact exists_congr hok
  · rw [pageOf_eq, hplain]
    exact blames_iff
  · rw [pageOf_eq, hplain]
    exact decodePage_pageAmid houter hinner hes

/-! A view as the list of its values, and one without a preference, amid members that nobody asked
for. -/

def handed : Padded :=
  ⟨[' '], listText [] [.bare ['7'], .bare ['t', 'r', 'u', 'e'], .bare ['"', 's', '"']], ['\n'],
    by simp [Blank, Json.isBlank], by simp [Blank, Json.isBlank]⟩

def unfinished : Padded := .bare (objectText [] [.named "id" ['7']])

theorem page_whole_unfinished :
    (∃ raw, RawView.shape.readDocument handed.document = .ok raw) ∧
      decodePage (pageAmid ([.named "at" ['7']], []) ([], [.named "of" (listText [' '] [])])
        [handed, unfinished]) =
          .error (.envelope ⟨[.key "_embedded", .key "preferences", .index 1],
            .mismatch (.missingField "preference")⟩) := by
  have hseven : IsValue ['7'] :=
    .number ⟨[], ['7'], [], [], .inl rfl,
      .inr ⟨'7', [], rfl, by decide, List.forall_mem_nil _, rfl⟩, .inl rfl, .inl rfl, rfl⟩
  have hs : IsValue ['"', 's', '"'] :=
    .text (.plain (by decide) (by decide) (by decide) .nil)
  have hhanded : IsValue handed.body := by
    refine .list blank_nil fun p hp => ?_
    simp only [List.mem_cons, List.not_mem_nil, or_false] at hp
    rcases hp with rfl | rfl | rfl
    · exact hseven
    · exact .yes
    · exact hs
  have hunfinished : IsValue unfinished.body := by
    refine .object blank_nil (fun m hm => ?_) (fun m hm => ?_)
    · rw [List.mem_singleton.1 hm]
      exact isString_of_spells (Member.spells_named (by decide +kernel) _)
    · rw [List.mem_singleton.1 hm]
      exact hseven
  have hes : ∀ p ∈ [handed, unfinished], IsValue p.body := by
    intro p hp
    simp only [List.mem_cons, List.not_mem_nil, or_false] at hp
    rcases hp with rfl | rfl
    · exact hhanded
    · exact hunfinished
  have hread : ∃ raw, RawView.shape.readDocument handed.document = .ok raw :=
    exists_ok (by decide +kernel)
  have houter : ∀ m ∈ [Member.named "at" ['7']] ++ [], m.Beside "_embedded" := by
    intro m hm
    rw [List.mem_singleton.1 hm]
    exact ⟨hseven, "at", Member.spells_named (by decide +kernel) _, by decide⟩
  have hinner : ∀ m ∈ [] ++ [Member.named "of" (listText [' '] [])], m.Beside "preferences" := by
    intro m hm
    rw [List.mem_singleton.1 hm]
    exact ⟨.list (by simp [Blank, Json.isBlank]) (List.forall_mem_nil _), "of",
      Member.spells_named (by decide +kernel) _,
      by decide⟩
  obtain ⟨_, _, herror, hamid⟩ :=
    @page_whole _ hes ([.named "at" ['7']], []) ([], [.named "of" (listText [' '] [])])
      houter hinner
  refine ⟨hread, hamid.trans ((herror _).2 ⟨1, ⟨unfinished, ⟨[], _⟩, rfl, ?_, rfl⟩, ?_, ?_⟩)⟩
  · rfl
  · intro p hp
    rw [List.mem_singleton.1 hp]
    exact hread
  · exact message_of_index 1 [] _

end PinLedger
