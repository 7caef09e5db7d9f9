import PinLedger.Proofs.Run.Conservation
import PinLedger.Proofs.Run.Forgetting
import PinLedger.Proofs.Run.Mirroring

/-!
# PinLedger.Proofs.Run.Scratch

What a run makes of the tables, whatever pins they had. A run from scratch gives the tables of its
registry the pins of the records that it leaves behind, also if row times do not lie on a grid, as
long as no id comes twice in its page. Tables that the registry does not name are left alone.

* `untouched_run`, `untouched_rebuild` — tables that the registry does not name
* `Tallied.postAll_of_new` — views that have no records yet
* `pinned_of_rebuild`, `placed_of_rebuild` — pins and records after a run from scratch
-/

namespace PinLedger

variable {reg : Registry} {w : Window} {d d' : StoreData} {g g' : Ledger} {v : ParsedView}
variable {p : Plan} {name : String} {views : List ParsedView} {watermark : Option Instant}
variable {sum sum' : RunSummary}

/-! ### Tables that are left alone -/

theorem untouched_applyPin {s : PinStatement} (hname : name ≠ s.table)
    (h : d.applyPin s = .ok d') : d'.tables.find? name = d.tables.find? name := by
  obtain ⟨tables, htables, rfl⟩ := applyPin_eq_ok h
  cases s with
  | shift c range add =>
    obtain ⟨t, t', _, _, _, rfl⟩ := shiftTables_shift htables
    exact (Dict.find?_modify _ _ _ _).trans (if_neg hname)
  | reset table =>
    obtain ⟨_, rfl⟩ := shiftTables_reset htables
    exact (Dict.find?_modify _ _ _ _).trans (if_neg hname)

theorem untouched_applyPins {l : List PinStatement} (hl : ∀ s ∈ l, s.table ∈ reg.tables)
    (hname : name ∉ reg.tables) (h : d.applyPins l = .ok d') :
    d'.tables.find? name = d.tables.find? name := by
  induction l generalizing d with
  | nil =>
    cases h
    rfl
  | cons s l ih =>
    rw [applyPins_cons] at h
    obtain ⟨d₁, hs, h⟩ := bind_eq_ok.1 h
    have hne : name ≠ s.table := by
      rintro rfl
      exact hname (hl s List.mem_cons_self)
    rw [ih (fun s' hs' => hl s' (List.mem_cons_of_mem s hs')) h, untouched_applyPin hne hs]

theorem untouched_post (hname : name ∉ reg.tables) (h : g.post reg w v = .ok (p, g')) :
    g'.data.tables.find? name = g.data.tables.find? name := by
  obtain ⟨hplan, d, hpins, hdata, _, _⟩ := Ledger.post_eq_ok h
  have hd := untouched_applyPins (table_of_plan hplan) hname hpins
  rw [hdata]
  exact hd

theorem untouched_run (hname : name ∉ reg.tables)
    (h : Ledger.run reg w views watermark g = .ok (sum, d')) :
    d'.tables.find? name = g.data.tables.find? name :=
  Ledger.keeps_run (P := fun d => d.tables.find? name = g.data.tables.find? name)
    (fun hg hpost => (untouched_post hname hpost).trans hg) (fun _ hd => hd) rfl h

theorem untouched_wipe (hname : name ∉ reg.tables) (h : g.wipe reg = .ok g') :
    g'.data.tables.find? name = g.data.tables.find? name := by
  obtain ⟨k, hpin, rfl⟩ := map_eq_ok.1 h
  obtain ⟨hpins, _, _⟩ := Ledger.pin_eq_ok hpin
  rw [find?_of_resets hpins name, if_neg hname]

theorem untouched_rebuild (hname : name ∉ reg.tables)
    (h : d.rebuild reg w views watermark = .ok (sum, d')) :
    d'.tables.find? name = d.tables.find? name := by
  obtain ⟨k, hwipe, hrun⟩ := bind_eq_ok.1 h
  rw [untouched_run hname hrun, untouched_wipe hname hwipe]

/-! ### A run from scratch -/

/-- Views of distinct ids that have no records yet need no grid. -/
theorem Tallied.postAll_of_new {R : Int → Nat → Prop} {extra : String → Instant → Nat}
    (hR : Comparison R) (hids : (views.map (·.id)).Nodup)
    (hnew : ∀ v ∈ views, g.data.views.find? v.id = none) (hg : g.data.Tallied R extra reg w)
    (h : Ledger.postAll reg w sum g views = .ok (sum', g')) : g'.data.Tallied R extra reg w := by
  induction views generalizing sum g with
  | nil =>
    cases h
    exact hg
  | cons v views ih =>
    obtain ⟨⟨p, k⟩, hpost, h⟩ := bind_eq_ok.1 h
    obtain ⟨hv, hrest⟩ := List.nodup_cons.1 hids
    refine ih hrest ?_ (hg.post_of_new hR (hnew v List.mem_cons_self) hpost) h
    intro u hu
    have hne : u.id ≠ v.id := fun heq => hv (List.mem_map.2 ⟨u, hu, heq⟩)
    rw [find?_post hpost, if_neg hne]
    exact hnew u (List.mem_cons_of_mem v hu)

/-- The same rows without pins, and nothing else. -/
def StoreData.blank (d : StoreData) : StoreData := { tables := d.tables.map Table.clear }

theorem freshCopy_blank (d : StoreData) : FreshCopy d.blank d :=
  ⟨fun name => Dict.find?_map d.tables Table.clear name, rfl, rfl⟩

theorem tallied_blank (d : StoreData) : d.blank.Tallied (fun p n => p = n) (fun _ _ => 0) reg w := by
  intro name t ht r hr
  rw [(freshCopy_blank d).tables] at ht
  obtain ⟨t₀, _, rfl⟩ := Option.map_eq_some_iff.1 ht
  obtain ⟨r₀, _, rfl⟩ := List.mem_map.1 hr
  have hnone : d.blank.views = .empty := rfl
  simp only [StoreData.coverage_of_no_views hnone]
  rfl

/-- A first run leaves the pins that its records make. -/
theorem tallied_of_update (hpage : (views.map (·.id)).Nodup ∨ d.Spaced)
    (h : d.blank.update reg w views watermark = .ok (sum, d')) :
    d'.Tallied (fun p n => p = n) (fun _ _ => 0) reg w := by
  rcases hpage with hids | hspaced
  · obtain ⟨⟨sum₁, k⟩, hposts, h⟩ := bind_eq_ok.1 h
    cases h
    have hk := Tallied.postAll_of_new comparison_eq hids (fun _ _ => rfl) (tallied_blank d) hposts
    cases watermark with
    | none => exact hk
    | some t => exact hk
  · have hblank : d.blank.Spaced := hspaced.of_skeleton (freshCopy_blank d).skeleton
    exact StoreData.Tallied.run comparison_eq hblank (tallied_blank d) h

/-- **Pins after a run from scratch.** In the tables of the registry they are those that the records
make. -/
theorem pinned_of_rebuild (hpage : (views.map (·.id)).Nodup ∨ d.Spaced)
    (h : d.rebuild reg w views watermark = .ok (sum, d')) (hname : name ∈ reg.tables) {t : Table}
    (ht : d'.tables.find? name = some t) :
    ∀ r ∈ t.rows, r.pin = d'.coverage reg w name r.time := by
  obtain ⟨sum₀, d₀, h₀, halike, _⟩ := update_of_rebuild (freshCopy_blank d) h
  have hcover : ∀ x, d'.coverage reg w name x = d₀.coverage reg w name x := by
    intro x
    unfold StoreData.coverage
    rw [halike.views, StoreData.lookup_congr halike.skeleton]
  intro r hr
  rw [halike.tables name hname] at ht
  rw [hcover]
  exact tallied_of_update hpage h₀ name t ht r hr

/-- The columns of the records exist. -/
theorem placed_of_rebuild (h : d.rebuild reg w views watermark = .ok (sum, d')) :
    d'.Placed reg := by
  obtain ⟨k, hwipe, hrun⟩ := bind_eq_ok.1 h
  obtain ⟨k₁, _, rfl⟩ := map_eq_ok.1 hwipe
  refine Ledger.keeps_run (P := StoreData.Placed reg) (fun hg hpost => hg.post hpost)
    (fun _ hd => hd) ?_ hrun
  intro r hr
  cases hr

end PinLedger
