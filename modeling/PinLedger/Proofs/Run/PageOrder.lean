import PinLedger.Proofs.Run.Conservation
import PinLedger.Proofs.Run.Mirroring

/-!
# PinLedger.Proofs.Run.PageOrder

The order of the views of a page. Plans read row times and the record of their own view, so the views
of a page can all be planned before any plan is carried out. Going down stops at zero and does not
commute with going up; but no plan takes down more than its view has put up, and so the counts at the
end are those of the records at the end, in whatever order the plans were carried out.

* `Ledger.carry`, `postAll_iff` — plans made first, and carried out afterwards
* `Reordered` — data that differ in the order of the log only
* `run_perm` — two orders that complete leave the same behind
* `run_of_perm` — an order completes if another one does and no count leaves its range
-/

namespace PinLedger

variable {reg : Registry} {w : Window} {g k : Ledger} {v : ParsedView} {p : Plan}

/-! ### Plans made first -/

namespace Ledger

/-- Pin statements and changes of the records have nothing to do with each other. -/
theorem pin_change (g : Ledger) (l : List PinStatement) (s : List ViewStatement) :
    (g.change s).pin l = (g.pin l).map fun k => k.change s := by
  have hmove := applyPins_withViews g.data (s.foldl ViewTable.apply g.data.views) l
  unfold pin change
  rw [hmove]
  cases h : g.data.applyPins l with
  | error a => rfl
  | ok d =>
    have hviews : d.views = g.data.views := views_applyPins h
    simp only [Except.map, hviews]

theorem change_append (g : Ledger) (s s' : List ViewStatement) :
    g.change (s ++ s') = (g.change s).change s' := by
  simp only [change, List.foldl_append, List.length_append, Nat.add_assoc]

/-- Carries out plans: all their operations, and then all changes of the records. -/
def carry (g : Ledger) (plans : List Plan) : Except Abort Ledger :=
  (g.pin ((plans.flatMap Plan.operations).map PinOperation.statement)).map fun k =>
    k.change (plans.flatMap fun p => p.statement.toList)

theorem carry_cons (g : Ledger) (p : Plan) (plans : List Plan) :
    g.carry (p :: plans) = g.carry [p] >>= fun k => k.carry plans := by
  unfold carry
  simp only [List.flatMap_cons, List.flatMap_nil, List.append_nil, List.map_append, pin_append]
  cases g.pin (p.operations.map PinOperation.statement) with
  | error a => rfl
  | ok k =>
    show (k.pin _).map _ = ((k.change p.statement.toList).pin _).map _
    rw [pin_change]
    cases k.pin ((plans.flatMap Plan.operations).map PinOperation.statement) with
    | error a => rfl
    | ok m => exact congrArg Except.ok (change_append m _ _)

theorem post_iff : g.post reg w v = .ok (p, k) ↔ g.plan reg w v = .ok p ∧ g.carry [p] = .ok k := by
  have hcarry : g.carry [p] = (g.pin (p.operations.map PinOperation.statement)).map fun k =>
      k.change p.statement.toList := by
    unfold carry
    simp only [List.flatMap_cons, List.flatMap_nil, List.append_nil]
  rw [hcarry]
  constructor
  · intro h
    obtain ⟨p', hplan, h⟩ := bind_eq_ok.1 h
    obtain ⟨m, hpin, h⟩ := bind_eq_ok.1 h
    cases h
    exact ⟨hplan, map_eq_ok.2 ⟨m, hpin, rfl⟩⟩
  · rintro ⟨hplan, h⟩
    obtain ⟨m, hpin, rfl⟩ := map_eq_ok.1 h
    exact bind_eq_ok.2 ⟨p, hplan, bind_eq_ok.2 ⟨m, hpin, rfl⟩⟩

/-- The plan of a view does not depend on what has been posted for another one. -/
theorem plan_of_post {u : ParsedView} (h : g.post reg w v = .ok (p, k)) (hne : u.id ≠ v.id) :
    k.plan reg w u = g.plan reg w u := by
  unfold plan
  rw [StoreData.lookup_congr (skeleton_post h), find?_post h, if_neg hne]

/-- Views of distinct ids can be posted if and only if they can all be planned and their plans be
carried out. -/
theorem postAll_iff {views : List ParsedView} {sum sum' : RunSummary}
    (hids : (views.map (·.id)).Nodup) :
    postAll reg w sum g views = .ok (sum', k) ↔
      ∃ plans, views.mapM (g.plan reg w) = .ok plans ∧ g.carry plans = .ok k ∧
        sum' = plans.foldl (fun s p => s.record p.case) sum := by
  induction views generalizing sum g with
  | nil =>
    constructor
    · intro h
      cases h
      exact ⟨[], rfl, rfl, rfl⟩
    · rintro ⟨plans, hplans, hcarry, rfl⟩
      cases hplans
      cases hcarry
      rfl
  | cons v views ih =>
    obtain ⟨hv, hrest⟩ := List.nodup_cons.1 hids
    -- posting this view leaves alone what the others are planned from
    have hplan : ∀ {p m}, g.post reg w v = .ok (p, m) →
        views.mapM (m.plan reg w) = views.mapM (g.plan reg w) := by
      intro p m hpost
      refine mapM_congr fun u hu => plan_of_post hpost ?_
      intro heq
      exact hv (List.mem_map.2 ⟨u, hu, heq⟩)
    rw [List.mapM_cons]
    constructor
    · intro h
      obtain ⟨⟨p, m⟩, hpost, h⟩ := bind_eq_ok.1 h
      obtain ⟨plans, hplans, hcarry, hsum⟩ := (ih hrest).1 h
      obtain ⟨hp, hm⟩ := post_iff.1 hpost
      rw [hplan hpost] at hplans
      refine ⟨p :: plans, ?_, ?_, hsum⟩
      · rw [hp, hplans]
        rfl
      · rw [carry_cons, hm]
        exact hcarry
    · rintro ⟨plans', h, hcarry, rfl⟩
      obtain ⟨p, hp, h⟩ := bind_eq_ok.1 h
      obtain ⟨plans, hplans, h⟩ := bind_eq_ok.1 h
      cases h
      rw [carry_cons] at hcarry
      obtain ⟨m, hm, hcarry⟩ := bind_eq_ok.1 hcarry
      have hpost := post_iff.2 ⟨hp, hm⟩
      rw [← hplan hpost] at hplans
      exact bind_eq_ok.2 ⟨(p, m), hpost, (ih hrest).2 ⟨plans, hplans, hcarry, rfl⟩⟩

end Ledger

/-! ### What an order leaves behind -/

/-- Data that differ in the order of the log only. -/
structure Reordered (d d' : StoreData) : Prop where
  tables : ∀ name, d.tables.find? name = d'.tables.find? name
  views : d.views = d'.views
  lastRun : d.lastRun = d'.lastRun
  pinLog : d.pinLog.Perm d'.pinLog

variable {d d' : StoreData} {views views' : List ParsedView}

theorem rows_of_pinned {t : Table} {f : Instant → Nat} (h : ∀ r ∈ t.rows, r.pin = f r.time) :
    t.rows = t.times.map fun x => ⟨x, f x⟩ := by
  unfold Table.times
  rw [List.map_map]
  refine (List.map_id t.rows).symm.trans (List.map_congr_left fun r hr => ?_)
  obtain ⟨x, n⟩ := r
  have hn : n = f x := h ⟨x, n⟩ hr
  rw [hn]
  rfl

theorem find?_of_pinned {f : String → Instant → Nat} (hs : d.skeleton = d'.skeleton)
    (hd : d.Pinned f) (hd' : d'.Pinned f) (name : String) :
    d.tables.find? name = d'.tables.find? name := by
  cases ht' : d'.tables.find? name with
  | none =>
    have hname := congrFun hs name
    unfold StoreData.skeleton at hname
    rw [ht'] at hname
    exact Option.map_eq_none_iff.1 hname
  | some t' =>
    obtain ⟨t, ht, hcolumn, htimes⟩ := times_of_skeleton_eq hs.symm ht'
    have hrows := rows_of_pinned (hd name t ht)
    have hrows' := rows_of_pinned (hd' name t' ht')
    rw [ht, Option.some.injEq]
    obtain ⟨column, rows⟩ := t
    obtain ⟨column', rows'⟩ := t'
    rw [htimes, ← hrows'] at hrows
    cases hcolumn
    cases hrows
    rfl

theorem views_of_postAll {sum s s' : RunSummary} {k k' : Ledger} (hperm : views.Perm views')
    (hids : (views.map (·.id)).Nodup) (h : Ledger.postAll reg w sum g views = .ok (s, k))
    (h' : Ledger.postAll reg w sum g views' = .ok (s', k')) : k.data.views = k'.data.views := by
  have hids' : (views'.map (·.id)).Nodup := (hperm.map (·.id)).nodup_iff.1 hids
  refine ViewTable.eq_of_find? fun id => ?_
  by_cases hid : ∃ v ∈ views, v.id = id
  · obtain ⟨v, hv, rfl⟩ := hid
    rw [record_of_postAll hids h hv, record_of_postAll hids' h' (hperm.mem_iff.1 hv)]
  · have hother : ∀ v ∈ views, v.id ≠ id := fun v hv heq => hid ⟨v, hv, heq⟩
    have hother' : ∀ v ∈ views', v.id ≠ id := fun v hv => hother v (hperm.mem_iff.2 hv)
    rw [find?_postAll h hother, find?_postAll h' hother']

theorem RunSummary.record_comm (s : RunSummary) (c c' : ReconcileCase) :
    (s.record c).record c' = (s.record c').record c := by
  cases c
  all_goals
    cases c'
    all_goals rfl

/-- Two orders count the same, and their logs have the same statements. -/
theorem postAll_perm {sum s s' : RunSummary} {k k' : Ledger} (hperm : views.Perm views')
    (hids : (views.map (·.id)).Nodup) (h : Ledger.postAll reg w sum g views = .ok (s, k))
    (h' : Ledger.postAll reg w sum g views' = .ok (s', k')) :
    s = s' ∧ k.pins = k'.pins ∧ k.views = k'.views ∧ k.data.pinLog.Perm k'.data.pinLog := by
  have hids' : (views'.map (·.id)).Nodup := (hperm.map (·.id)).nodup_iff.1 hids
  obtain ⟨plans, hplans, hcarry, rfl⟩ := (Ledger.postAll_iff hids).1 h
  obtain ⟨plans', hplans', hcarry', rfl⟩ := (Ledger.postAll_iff hids').1 h'
  obtain ⟨plans'', hplans'', hp⟩ := perm_of_mapM hperm hplans
  rw [hplans'] at hplans''
  cases hplans''
  have hops := (hp.flatMap_right Plan.operations).map PinOperation.statement
  have hchanges := hp.flatMap_right fun p => p.statement.toList
  obtain ⟨m, hpin, rfl⟩ := map_eq_ok.1 hcarry
  obtain ⟨m', hpin', rfl⟩ := map_eq_ok.1 hcarry'
  obtain ⟨happly, hpins, hviews⟩ := Ledger.pin_eq_ok hpin
  obtain ⟨happly', hpins', hviews'⟩ := Ledger.pin_eq_ok hpin'
  refine ⟨?_, ?_, ?_, ?_⟩
  · exact hp.foldl_eq' (fun p _ p' _ s => RunSummary.record_comm s p.case p'.case) sum
  · show m.pins = m'.pins
    rw [hpins, hpins', hops.length_eq]
  · show m.views + _ = m'.views + _
    rw [hviews, hviews', hchanges.length_eq]
  · show m.data.pinLog.Perm m'.data.pinLog
    rw [pinLog_applyPins happly, pinLog_applyPins happly']
    exact hops.append_left _

/-- **Two orders of a page.** Where the counts are those of the records, and something else besides
that no plan touches, two runs over the same views that complete leave the same behind. -/
theorem run_perm {extra : String → Instant → Nat} {watermark : Option Instant}
    {sum sum' : RunSummary} (hperm : views.Perm views') (hids : (views.map (·.id)).Nodup)
    (hspaced : g.data.Spaced) (hg : g.data.Tallied (fun p n => p = n) extra reg w)
    (h : Ledger.run reg w views watermark g = .ok (sum, d))
    (h' : Ledger.run reg w views' watermark g = .ok (sum', d')) :
    sum = sum' ∧ Reordered d d' := by
  have hskeleton := (Ledger.skeleton_run h).trans (Ledger.skeleton_run h').symm
  have hd := hg.run comparison_eq hspaced h
  have hd' := hg.run comparison_eq hspaced h'
  obtain ⟨⟨s, k⟩, hposts, h⟩ := bind_eq_ok.1 h
  obtain ⟨⟨s', k'⟩, hposts', h'⟩ := bind_eq_ok.1 h'
  cases h
  cases h'
  obtain ⟨rfl, hpins, hcounts, hlog⟩ := postAll_perm hperm hids hposts hposts'
  have hviews := views_of_postAll hperm hids hposts hposts'
  have hlast := (lastRun_postAll hposts).trans (lastRun_postAll hposts').symm
  have hclosed : (k.closed watermark).views = (k'.closed watermark).views ∧
      (k.closed watermark).lastRun = (k'.closed watermark).lastRun ∧
      (k.closed watermark).pinLog.Perm (k'.closed watermark).pinLog := by
    cases watermark with
    | none => exact ⟨hviews, hlast, hlog⟩
    | some t => exact ⟨hviews, rfl, hlog⟩
  obtain ⟨hviews, hlast, hlog⟩ := hclosed
  -- the counts are those of the records, and the records are the same
  have hcover : (k'.closed watermark).coverage reg w = (k.closed watermark).coverage reg w := by
    funext name x
    unfold StoreData.coverage
    rw [hviews, StoreData.lookup_congr hskeleton]
  unfold StoreData.Tallied at hd'
  rw [hcover] at hd'
  have htables := find?_of_pinned
    (f := fun name x => (k.closed watermark).coverage reg w name x + extra name x) hskeleton hd hd'
  refine ⟨?_, htables, hviews, hlast, hlog⟩
  unfold Ledger.summary
  rw [hpins, hcounts]

/-! ### Orders that complete -/

/-- Every count can go up so many times. -/
def StoreData.Room (d : StoreData) (n : Nat) : Prop :=
  ∀ name t, d.tables.find? name = some t → ∀ r ∈ t.rows, r.pin + n ≤ Row.maxPin

/-- How many operations go up in the plans of some views. -/
def StoreData.raises (reg : Registry) (w : Window) (d : StoreData) (views : List ParsedView) : Nat :=
  (views.map fun v => (plan d.lookup reg w (d.views.find? v.id) v).toOption.elim 0
    (·.pins.length)).sum

theorem Row.shift?_of_room {r : Row} {add : Bool} (h : r.pin + add.toNat ≤ Row.maxPin) :
    ∃ r', r.shift? add = some r' ∧ r'.pin ≤ r.pin + add.toNat := by
  unfold Row.shift?
  cases add
  · rw [if_neg Bool.false_ne_true]
    by_cases hpos : 0 < r.pin
    · refine ⟨{ r with pin := r.pin - 1 }, if_pos hpos, ?_⟩
      show r.pin - 1 ≤ r.pin + (0 : Nat)
      omega
    · refine ⟨r, if_neg hpos, ?_⟩
      show r.pin ≤ r.pin + (0 : Nat)
      omega
  · have hlt : r.pin < Row.maxPin := by
      rw [Bool.toNat_true] at h
      omega
    rw [if_pos rfl, if_pos hlt]
    exact ⟨{ r with pin := r.pin + 1 }, rfl, Int.le_refl _⟩

theorem Table.shift?_of_room {t : Table} (range : TimeRange) {add : Bool}
    (h : ∀ r ∈ t.rows, r.pin + add.toNat ≤ Row.maxPin) :
    ∃ t', t.shift? range add = some t' ∧
      ∀ r' ∈ t'.rows, ∃ r ∈ t.rows, r'.pin ≤ r.pin + add.toNat := by
  have hrow : ∀ r ∈ t.rows, ∃ r', (if r.time ∈ range then r.shift? add else some r) = some r' ∧
      r'.pin ≤ r.pin + add.toNat := by
    intro r hr
    by_cases hmem : r.time ∈ range
    · rw [if_pos hmem]
      exact Row.shift?_of_room (h r hr)
    · rw [if_neg hmem]
      refine ⟨r, rfl, ?_⟩
      omega
  obtain ⟨rows, hrows⟩ := exists_mapM fun r hr => (hrow r hr).imp fun _ h => h.1
  refine ⟨{ t with rows }, ?_, ?_⟩
  · unfold Table.shift?
    rw [hrows]
    rfl
  · intro r' hr'
    obtain ⟨r, hr, hshift⟩ := mem_of_mapM hrows r' hr'
    obtain ⟨r'', heq, hle⟩ := hrow r hr
    rw [hshift] at heq
    cases heq
    exact ⟨r, hr, hle⟩

/-- An operation on a column that exists is carried out if the counts have room for it, and leaves
the rest of the room. -/
theorem applyPin_of_room {c : Column} (range : TimeRange) {add : Bool} {n : Nat} (hc : d.Known c)
    (hroom : d.Room (add.toNat + n)) :
    ∃ d', d.applyPin (.shift c range add) = .ok d' ∧ d'.Room n := by
  obtain ⟨t, ht, hcolumn⟩ := hc
  have hrows : ∀ r ∈ t.rows, r.pin + add.toNat ≤ Row.maxPin := by
    intro r hr
    have hle := hroom c.table t ht r hr
    omega
  obtain ⟨t', hshift, hle⟩ := Table.shift?_of_room range hrows
  refine ⟨{ d with
    tables := d.tables.modify c.table fun _ => t'
    pinLog := d.pinLog ++ [.shift c range add] }, ?_, ?_⟩
  · rw [applyPin_shift ht hcolumn, hshift]
  · intro name u hu r' hr'
    change (d.tables.modify c.table fun _ => t').find? name = some u at hu
    rw [Dict.find?_modify] at hu
    by_cases hname : name = c.table
    · rw [if_pos hname, hname, ht] at hu
      cases hu
      obtain ⟨r, hr, hpin⟩ := hle r' hr'
      have hold := hroom c.table t ht r hr
      omega
    · rw [if_neg hname] at hu
      have hold := hroom name u hu r' hr'
      omega

/-- Operations on columns that exist are carried out if the counts have room for those that go up. -/
theorem applyPins_of_room {ops : List PinOperation} (hknown : ∀ op ∈ ops, d.Known op.layer.column)
    (hroom : d.Room (ops.countP (·.add))) :
    ∃ d', d.applyPins (ops.map PinOperation.statement) = .ok d' := by
  induction ops generalizing d with
  | nil => exact ⟨d, rfl⟩
  | cons op ops ih =>
    have hsplit : (op :: ops).countP (·.add) = op.add.toNat + ops.countP (·.add) := by
      rw [List.countP_cons]
      cases op.add
      · simp
      · simp [Nat.add_comm]
    rw [hsplit] at hroom
    obtain ⟨d₁, h₁, hroom₁⟩ := applyPin_of_room op.range (hknown op List.mem_cons_self) hroom
    have hknown₁ : ∀ op' ∈ ops, d₁.Known op'.layer.column := by
      intro op' hop'
      exact (hknown op' (List.mem_cons_of_mem op hop')).of_skeleton (skeleton_applyPin h₁)
    obtain ⟨d', h'⟩ := ih hknown₁ hroom₁
    refine ⟨d', ?_⟩
    rw [List.map_cons, applyPins_cons]
    exact bind_eq_ok.2 ⟨d₁, h₁, h'⟩

theorem plan_eq_ok (h : g.plan reg w v = .ok p) :
    plan g.data.lookup reg w (g.data.views.find? v.id) v = .ok p :=
  mapError_eq_ok.1 h

theorem countP_of_plans {plans : List Plan} (h : views.mapM (g.plan reg w) = .ok plans) :
    (plans.flatMap Plan.operations).countP (·.add) = g.data.raises reg w views := by
  unfold StoreData.raises
  induction views generalizing plans with
  | nil =>
    cases h
    rfl
  | cons v views ih =>
    rw [List.mapM_cons] at h
    obtain ⟨p, hp, h⟩ := bind_eq_ok.1 h
    obtain ⟨rest, hrest, h⟩ := bind_eq_ok.1 h
    cases h
    rw [List.flatMap_cons, List.countP_append, ih hrest, List.map_cons, List.sum_cons, plan_eq_ok hp,
      List.countP_eq_length_filter]
    rfl

/-- **A page in another order.** A run completes in every order of its views if it completes in one,
and no count can leave its range. -/
theorem run_of_perm {watermark : Option Instant} {sum : RunSummary} (hperm : views.Perm views')
    (hids : (views.map (·.id)).Nodup) (hroom : g.data.Room (g.data.raises reg w views))
    (h : Ledger.run reg w views watermark g = .ok (sum, d)) :
    ∃ r, Ledger.run reg w views' watermark g = .ok r := by
  have hids' : (views'.map (·.id)).Nodup := (hperm.map (·.id)).nodup_iff.1 hids
  obtain ⟨⟨s, k⟩, hposts, _⟩ := bind_eq_ok.1 h
  obtain ⟨plans, hplans, _, _⟩ := (Ledger.postAll_iff hids).1 hposts
  obtain ⟨plans', hplans', hp⟩ := perm_of_mapM hperm hplans
  have hcount := (hp.flatMap_right Plan.operations).countP_eq (·.add)
  rw [← countP_of_plans hplans, hcount] at hroom
  have hknown : ∀ op ∈ plans'.flatMap Plan.operations, g.data.Known op.layer.column := by
    intro op hop
    obtain ⟨p, hp, hop⟩ := List.mem_flatMap.1 hop
    obtain ⟨v, _, hplan⟩ := mem_of_mapM_ok hplans' p hp
    have hdirect := plan_eq_ok hplan
    rw [plan_eq_planDirect] at hdirect
    obtain ⟨a, b, range, hhull⟩ := hull_of_operation hdirect hop
    obtain ⟨t, ht, hcolumn, _⟩ := hull_eq_ok hhull
    exact ⟨t, ht, hcolumn⟩
  obtain ⟨d', happly⟩ := applyPins_of_room hknown hroom
  have hpin : g.pin ((plans'.flatMap Plan.operations).map PinOperation.statement) = .ok { g with
      data := d'
      pins := g.pins + ((plans'.flatMap Plan.operations).map PinOperation.statement).length } :=
    map_eq_ok.2 ⟨d', happly, rfl⟩
  obtain ⟨r, hr⟩ : ∃ r, Ledger.postAll reg w {} g views' = .ok r :=
    ⟨_, (Ledger.postAll_iff hids').2 ⟨plans', hplans', map_eq_ok.2 ⟨_, hpin, rfl⟩, rfl⟩⟩
  exact ⟨_, bind_eq_ok.2 ⟨r, hr, rfl⟩⟩

end PinLedger
