import PinLedger.Proofs.FirstMention
import PinLedger.Proofs.Layer.Registry
import PinLedger.Proofs.NameSet
import PinLedger.Proofs.Text.Bytes

/-!
# PinLedger.Proofs.Layer.Resolution

The registry of a mapping and a catalog. A layer id stands for what the catalog knows of its entries,
each binding once and in the order of the mapping; what the catalog does not know is passed over with
a warning. However a registry was made, what it says of all its layer ids together agrees with what
it says of each.

* `Registry.layersFor_ofLayers` — the bindings of a layer id, after any insertions
* `Registry.resolve_lookup` — resolving is inserting what the catalog knows
* `Catalog.find?_ofEntries` — the last declaration of a layer counts
* `Registry.Coherent`, `Built.coherent` — layer ids and tables of a registry
* `resolve_exact` — the registry of a mapping and a catalog
-/

namespace PinLedger

namespace Registry

variable {r r' : Registry} {layer table : String}

theorem layersFor_ofLayers (ls : List MappedLayer) (layer : String) :
    (ofLayers ls).layersFor layer = (ls.filter (·.layer = layer)).eraseDups := by
  induction ls using List.reverseRecOn generalizing layer with
  | nil =>
    rw [List.filter_nil, List.eraseDups_nil]
    rfl
  | append_singleton ls b ih =>
    have hlast : ofLayers (ls ++ [b]) = (ofLayers ls).insert b := List.foldl_concat ..
    rw [hlast, layersFor_insert, List.filter_append]
    by_cases hlayer : layer = b.layer
    · subst hlayer
      have hself : [b].filter (·.layer = b.layer) = [b] := by simp
      rw [if_pos rfl, ih, hself]
      by_cases hb : b ∈ ls.filter (·.layer = b.layer)
      · rw [if_pos (List.mem_eraseDups.2 hb), eraseDups_concat_of_mem hb]
      · rw [if_neg fun h => hb (List.mem_eraseDups.1 h), eraseDups_concat_of_not_mem hb]
    · have hother : [b].filter (·.layer = layer) = [] := by simp [Ne.symm hlayer]
      rw [if_neg hlayer, ih, hother, List.append_nil]

/-! ### Layer ids and tables -/

/-- What a registry says of all its layer ids agrees with what it says of each. -/
structure Coherent (r : Registry) : Prop where
  contains_iff : ∀ layer, r.contains layer = true ↔ r.layersFor layer ≠ []
  size_eq : ∃ layers : List String, layers.Nodup ∧
    (∀ layer, layer ∈ layers ↔ r.layersFor layer ≠ []) ∧ r.size = layers.length
  mem_tables : ∀ table, table ∈ r.tables ↔ ∃ layer, ∃ b ∈ r.layersFor layer, b.column.table = table
  increasing : r.tables.Pairwise fun a b => Text.bytes a < Text.bytes b
  /-- In whichever order the layer ids are visited. -/
  unordered : ∀ r' : Registry, r'.bindings.entries.Perm r.bindings.entries → r'.tables = r.tables

/-- No layer id is known for nothing. -/
def Filled (r : Registry) : Prop := ∀ layer bs, r.bindings.find? layer = some bs → bs ≠ []

theorem Filled.insert (h : r.Filled) (b : MappedLayer) : (r.insert b).Filled := by
  intro layer bs hbs
  unfold Registry.insert at hbs
  simp only [Dict.find?_insert] at hbs
  by_cases hlayer : layer = b.layer
  · rw [if_pos hlayer, Option.some.injEq] at hbs
    subst hbs
    split
    · rename_i hb
      exact List.ne_nil_of_mem hb
    · exact List.append_ne_nil_of_right_ne_nil _ (List.cons_ne_nil b [])
  · rw [if_neg hlayer] at hbs
    exact h layer bs hbs

theorem Built.filled (h : r.Built) : r.Filled := by
  obtain ⟨ls, rfl⟩ := h
  refine of_foldl_insert (fun _ b h => h.insert b) ?_ ls
  intro layer bs hbs
  cases hbs

theorem Filled.contains_iff (h : r.Filled) (layer : String) :
    r.contains layer = true ↔ r.layersFor layer ≠ [] := by
  unfold contains Dict.contains layersFor
  cases hfind : r.bindings.find? layer with
  | none => simp
  | some bs => simpa using h layer bs hfind

theorem mem_tables_iff :
    table ∈ r.tables ↔ ∃ layer, ∃ b ∈ r.layersFor layer, b.column.table = table := by
  constructor
  · intro h
    obtain ⟨b, hb, rfl⟩ := List.mem_map.1 (NameSet.mem_ofList.1 h)
    obtain ⟨bs, hbs, hb⟩ := List.mem_flatten.1 hb
    obtain ⟨layer, hfind⟩ := Dict.exists_of_mem_values hbs
    refine ⟨layer, b, ?_, rfl⟩
    unfold layersFor
    rw [hfind]
    exact hb
  · rintro ⟨layer, b, hb, rfl⟩
    exact table_mem_tables hb

theorem tables_of_perm (h : r'.bindings.entries.Perm r.bindings.entries) :
    r'.tables = r.tables := by
  have hbindings : r'.bindings.values.flatten.Perm r.bindings.values.flatten :=
    (h.map Prod.snd).flatten
  have hset : r'.tableSet = r.tableSet := by
    apply NameSet.ext
    intro table
    rw [tableSet, tableSet, NameSet.mem_ofList, NameSet.mem_ofList]
    exact (hbindings.map _).mem_iff
  exact congrArg NameSet.toList hset

theorem Built.coherent (h : r.Built) : r.Coherent where
  contains_iff := h.filled.contains_iff
  size_eq := by
    refine ⟨r.bindings.keys, r.bindings.nodup, fun layer => ?_, (List.length_map _).symm⟩
    rw [Dict.mem_keys]
    exact h.filled.contains_iff layer
  mem_tables _ := mem_tables_iff
  increasing := r.tableSet.increasing.imp Text.lt_iff_bytes.1
  unordered _ := tables_of_perm

/-! ### Resolving -/

/-- The binding of an entry, if the catalog knows its layer. -/
def bind? (find : String → String → Option Column) (e : MappingEntry) : Option MappedLayer :=
  (find e.workspace e.name).map fun c => ⟨e.layer, e.workspace, e.name, c⟩

theorem resolveFrom_lookup (c : Catalog) (s : Resolution) (es : List MappingEntry) :
    resolveFrom c.lookup s es =
      (⟨(es.filterMap (bind? c.find?)).foldl insert s.registry,
        s.skipped ++ es.filter fun e => (bind? c.find? e).isNone⟩, none) := by
  induction es generalizing s with
  | nil => simp [resolveFrom]
  | cons e es ih =>
    rw [List.filterMap_cons, List.filter_cons, resolveFrom, Resolution.add, Catalog.lookup, bind?]
    cases c.find? e.workspace e.name with
    | none => simp [ih]
    | some column => simp [ih]

theorem resolve_lookup (c : Catalog) (es : List MappingEntry) :
    resolve c.lookup es = (⟨ofLayers (es.filterMap (bind? c.find?)),
      es.filter fun e => (bind? c.find? e).isNone⟩, none) :=
  resolveFrom_lookup c ⟨empty, []⟩ es

theorem filter_filterMap_bind? (find : String → String → Option Column) (es : List MappingEntry)
    (layer : String) : (es.filterMap (bind? find)).filter (·.layer = layer) =
      (es.filter (·.layer = layer)).filterMap (bind? find) := by
  rw [List.filter_filterMap, List.filterMap_filter]
  refine List.filterMap_congr fun e _ => ?_
  -- a binding has the layer id of its entry
  cases hfind : find e.workspace e.name with
  | none => simp [bind?, hfind]
  | some column => simp [bind?, hfind, Option.filter]

end Registry

/-- The column of the last declaration of a layer. -/
def lastDeclared (ces : List CatalogEntry) (workspace name : String) : Option Column :=
  (ces.reverse.find? fun e => e.workspace = workspace ∧ e.name = name).map (·.column)

theorem Catalog.find?_ofEntries (ces : List CatalogEntry) :
    (Catalog.ofEntries ces).find? = lastDeclared ces := by
  funext workspace name
  unfold find? ofEntries lastDeclared
  rw [Dict.find?_ofList, ← List.map_reverse, List.find?_map, Option.map_map]
  simp only [Function.comp_def, Prod.mk.injEq]

/-- **Resolution is exact.** A layer id stands for the bindings of its entries whose layers were
declared, to the column of the last declaration, in the order of the mapping and each once. The
other entries are skipped, with one warning each and in order. Whatever is inserted into the
registry afterwards, or into an empty one, its layer ids and its tables are those that are bound. -/
theorem resolve_exact (ces : List CatalogEntry) (es : List MappingEntry) :
    let bound := Registry.bind? (lastDeclared ces)
    let skipped := es.filter fun e => (bound e).isNone
    ∃ reg : Registry,
      Registry.resolve (Catalog.ofEntries ces).lookup es = (⟨reg, skipped⟩, none) ∧
      ({ catalog := .ofEntries ces } : Site).readRegistry (.entries es) =
        (.ok reg, skipped.map .notInCatalog) ∧
      (∀ layer, reg.layersFor layer =
        ((es.filter (·.layer = layer)).filterMap bound).eraseDups) ∧
      ∀ ls : List MappedLayer,
        (ls.foldl Registry.insert reg).Coherent ∧ (Registry.ofLayers ls).Coherent := by
  intro bound skipped
  have hresolve := Registry.resolve_lookup (Catalog.ofEntries ces) es
  rw [Catalog.find?_ofEntries] at hresolve
  refine ⟨_, hresolve, ?_, ?_, ?_⟩
  · have hread : ({ catalog := .ofEntries ces } : Site).readRegistry (.entries es) =
        ((Registry.resolve (Catalog.ofEntries ces).lookup es).2.elim
          (.ok (Registry.resolve (Catalog.ofEntries ces).lookup es).1.registry) .error,
        [] ++ (Registry.resolve (Catalog.ofEntries ces).lookup es).1.skipped.map .notInCatalog) := rfl
    rw [hread, hresolve]
    rfl
  · intro layer
    rw [Registry.layersFor_ofLayers, Registry.filter_filterMap_bind?]
  · intro ls
    have hbuilt : (ls.foldl Registry.insert
        (Registry.ofLayers (es.filterMap (Registry.bind? (lastDeclared ces))))).Built :=
      Registry.of_foldl_insert (fun _ b h => h.insert b) ⟨_, rfl⟩ ls
    have hdirect : (Registry.ofLayers ls).Built := ⟨ls, rfl⟩
    exact ⟨hbuilt.coherent, hdirect.coherent⟩

end PinLedger
