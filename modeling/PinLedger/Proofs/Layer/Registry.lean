import PinLedger.Proofs.Dict
import PinLedger.Site

/-!
# PinLedger.Proofs.Layer.Registry

What the registry says of its tables, and what it says whenever it is read from one mapping.

* `Registry.table_mem_tables` — the table of a binding is a table of the registry
* `Catalog.registry` — the registry of a mapping, if the catalog answers
* `registry_of_readRegistry` — a registry that could be read is that one
* `Registry.Built`, `built_of_readRegistry` — it is made by binding one layer after another
* `Registry.Built.distinct`, `Registry.Built.keyed` — so it binds no layer id twice to one column,
  and finds each binding under its own layer id
-/

namespace PinLedger

namespace Registry

variable {reg : Registry} {layer : String} {b : MappedLayer}

theorem mem_bindings (h : b ∈ reg.layersFor layer) :
    ∃ bs, reg.bindings.find? layer = some bs ∧ b ∈ bs := by
  unfold layersFor at h
  cases hfind : reg.bindings.find? layer with
  | none =>
    rw [hfind] at h
    cases h
  | some bs =>
    rw [hfind] at h
    exact ⟨bs, rfl, h⟩

theorem table_mem_tables (h : b ∈ reg.layersFor layer) : b.column.table ∈ reg.tables := by
  obtain ⟨bs, hfind, hb⟩ := mem_bindings h
  have hmem : b ∈ reg.bindings.values.flatten :=
    List.mem_flatten.2 ⟨bs, Dict.mem_values hfind, hb⟩
  have hset : b.column.table ∈ reg.tableSet := NameSet.mem_ofList.2 (List.mem_map_of_mem hmem)
  exact hset

/-! ### Reading the registry -/

/-- If the first question fails, then so does the reading, and there is something to ask. -/
theorem resolve_of_failing {lookup : Lookup} (err : String → String → CatalogError)
    (hl : ∀ workspace name, lookup workspace name = .error (err workspace name))
    {es : List MappingEntry} (h : (resolve lookup es).2 = none) : es = [] := by
  cases es with
  | nil => rfl
  | cons e es =>
    unfold resolve resolveFrom Resolution.add at h
    rw [hl] at h
    cases h

end Registry

/-- The registry of a mapping. -/
def Catalog.registry (c : Catalog) (es : List MappingEntry) : Registry :=
  (Registry.resolve c.lookup es).1.registry

/-- Whenever the registry of some entries can be read, it is the same. -/
theorem registry_of_readRegistry {s : Site} {es : List MappingEntry} {reg : Registry}
    (h : (s.readRegistry (.entries es)).1 = .ok reg) : reg = s.catalog.registry es := by
  have hread : ((Registry.resolve s.lookup es).2.elim
      (.ok (Registry.resolve s.lookup es).1.registry) .error : Except CatalogError Registry) =
        .ok reg := h
  cases hfailed : (Registry.resolve s.lookup es).2 with
  | some err =>
    rw [hfailed] at hread
    cases hread
  | none =>
    rw [hfailed] at hread
    cases hread
    unfold Catalog.registry
    rcases ho : s.outages.catalog with _ | o
    · have hlookup : s.lookup = s.catalog.lookup := by
        funext workspace name
        unfold Site.lookup
        rw [ho]
      rw [hlookup]
    · cases o with
      | error =>
        have hes := Registry.resolve_of_failing
          (fun workspace name => .lookup s!"{workspace}:{name}" Outage.errorText)
          (fun workspace name => by unfold Site.lookup; rw [ho]) hfailed
        subst hes
        rfl
      | breakdown =>
        have hes := Registry.resolve_of_failing
          (fun _ _ => .breakdown Outage.breakdownText)
          (fun workspace name => by unfold Site.lookup; rw [ho]) hfailed
        subst hes
        rfl
      | refusal =>
        have hlookup : s.lookup = s.catalog.lookup := by
          funext workspace name
          unfold Site.lookup
          rw [ho]
        rw [hlookup]

/-! ### Bindings -/

/-- No layer id is bound twice to one column. -/
def Registry.Distinct (r : Registry) : Prop := ∀ layer, (r.layersFor layer).Nodup

theorem Registry.layersFor_insert (r : Registry) (b : MappedLayer) (layer : String) :
    (r.insert b).layersFor layer =
      if layer = b.layer then
        if b ∈ r.layersFor b.layer then r.layersFor b.layer else r.layersFor b.layer ++ [b]
      else r.layersFor layer := by
  unfold insert
  simp only [layersFor, Dict.find?_insert]
  split
  · rfl
  · rfl

theorem Registry.Distinct.insert {r : Registry} (h : r.Distinct) (b : MappedLayer) :
    (r.insert b).Distinct := by
  intro layer
  rw [layersFor_insert]
  by_cases hlayer : layer = b.layer
  · rw [if_pos hlayer]
    by_cases hb : b ∈ r.layersFor b.layer
    · rw [if_pos hb]
      exact h b.layer
    · rw [if_neg hb, List.nodup_append]
      refine ⟨h b.layer, List.pairwise_singleton _ b, ?_⟩
      intro b' hb' b'' hb'' heq
      rw [List.mem_singleton.1 hb''] at heq
      exact hb (heq ▸ hb')
  · rw [if_neg hlayer]
    exact h layer

/-- What binding one more layer keeps, a registry that is made of a mapping has. -/
theorem Registry.of_resolveFrom {P : Registry → Prop} (hP : ∀ r b, P r → P (r.insert b))
    {lookup : Lookup} {s : Resolution} (h : P s.registry) (es : List MappingEntry) :
    P (resolveFrom lookup s es).1.registry := by
  induction es generalizing s with
  | nil => exact h
  | cons e es ih =>
    unfold Registry.resolveFrom Resolution.add
    rcases lookup e.workspace e.name with err | _ | c
    · exact h
    · exact ih h
    · exact ih (hP _ _ h)

/-- Made by binding one layer after another, as all registries are. -/
def Registry.Built (r : Registry) : Prop := ∃ ls, r = ofLayers ls

theorem Registry.Built.insert {r : Registry} (h : r.Built) (b : MappedLayer) :
    (r.insert b).Built := by
  obtain ⟨ls, rfl⟩ := h
  exact ⟨ls ++ [b], by simp [ofLayers]⟩

theorem Registry.built_resolve (lookup : Lookup) (es : List MappingEntry) :
    (resolve lookup es).1.registry.Built :=
  of_resolveFrom (fun _ b h => h.insert b) ⟨[], rfl⟩ es

theorem Registry.of_foldl_insert {P : Registry → Prop} (hP : ∀ r b, P r → P (r.insert b))
    {r : Registry} (h : P r) (ls : List MappedLayer) : P (ls.foldl Registry.insert r) := by
  induction ls generalizing r with
  | nil => exact h
  | cons l ls ih => exact ih (hP r l h)

theorem Registry.Built.distinct {r : Registry} (h : r.Built) : r.Distinct := by
  obtain ⟨ls, rfl⟩ := h
  exact of_foldl_insert (fun _ b h => h.insert b) (fun _ => List.nodup_nil) ls

theorem Catalog.nodup_registry (c : Catalog) (es : List MappingEntry) :
    (c.registry es).Distinct :=
  (Registry.built_resolve c.lookup es).distinct

/-- A binding is found under the layer id that it has. -/
def Registry.Keyed (r : Registry) : Prop := ∀ layer, ∀ b ∈ r.layersFor layer, b.layer = layer

theorem Registry.Keyed.insert {r : Registry} (h : r.Keyed) (b : MappedLayer) :
    (r.insert b).Keyed := by
  intro layer b' hb'
  rw [layersFor_insert] at hb'
  by_cases hlayer : layer = b.layer
  · rw [if_pos hlayer] at hb'
    by_cases hb : b ∈ r.layersFor b.layer
    · rw [if_pos hb] at hb'
      exact (h b.layer b' hb').trans hlayer.symm
    · rw [if_neg hb] at hb'
      rcases List.mem_append.1 hb' with hold | hnew
      · exact (h b.layer b' hold).trans hlayer.symm
      · rw [List.mem_singleton.1 hnew]
        exact hlayer.symm
  · rw [if_neg hlayer] at hb'
    exact h layer b' hb'

theorem Registry.Built.keyed {r : Registry} (h : r.Built) : r.Keyed := by
  obtain ⟨ls, rfl⟩ := h
  refine of_foldl_insert (fun _ b h => h.insert b) ?_ ls
  intro layer b hb
  cases hb

/-- A registry that could be read, from entries or from a file, is made of a mapping. -/
theorem built_of_readRegistry {s : Site} {source : MappingSource} {reg : Registry}
    (h : (s.readRegistry source).1 = .ok reg) : reg.Built := by
  unfold Site.readRegistry at h
  rcases hread : s.readMapping source with ⟨r, ws⟩
  rw [hread] at h
  cases r with
  | error err => cases h
  | ok es =>
    cases hfailed : (Registry.resolve s.lookup es).2 with
    | some err =>
      simp only [hfailed] at h
      cases h
    | none =>
      simp only [hfailed] at h
      cases h
      exact Registry.built_resolve s.lookup es

theorem distinct_of_readRegistry {s : Site} {source : MappingSource} {reg : Registry}
    (h : (s.readRegistry source).1 = .ok reg) : reg.Distinct :=
  (built_of_readRegistry h).distinct

theorem keyed_of_readRegistry {s : Site} {source : MappingSource} {reg : Registry}
    (h : (s.readRegistry source).1 = .ok reg) : reg.Keyed :=
  (built_of_readRegistry h).keyed

end PinLedger
