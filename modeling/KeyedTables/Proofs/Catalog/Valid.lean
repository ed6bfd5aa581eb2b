import KeyedTables.Proofs.Catalog.Changes
import KeyedTables.Proofs.Table.Sized
import Mathlib.Data.List.Nodup

/-!
# Valid catalogs

Modules have different names, the first one being the main module; imports and the current name
refer to modules that exist; and the two ways in which a module keeps its tables, by name and in
order, agree. The initial catalog is valid, and every operation that succeeds keeps it so.
-/
namespace KeyedTables

structure Table.StoredAt (t : Table) (module name : String) : Prop where
  module_eq : t.module = module
  name_eq : t.name = name
  sized : t.Sized

/-- The names in order are those of the tables, and each table is stored where it says. -/
structure Module.Valid (m : Module) : Prop where
  nodup_order : m.order.Nodup
  mem_order_iff (name : String) : name ∈ m.order ↔ name ∈ m.tables.names
  stored {name : String} {t : Installed} : m.table? name = some t → t.table.StoredAt m.name name

namespace Catalog

def moduleNames (c : Catalog) : List String := c.modules.map Module.name

structure Valid (c : Catalog) : Prop where
  nodup_modules : c.moduleNames.Nodup
  first : c.moduleNames.head? = some mainModule
  imports : ∀ m ∈ c.modules, ∀ i ∈ m.imports, i ∈ c.moduleNames
  current : c.current ∈ c.moduleNames
  modules : ∀ m ∈ c.modules, m.Valid

theorem isSome_module?_iff {c : Catalog} {name : String} :
    (c.module? name).isSome ↔ name ∈ c.moduleNames := by
  rw [module?, List.find?_isSome, moduleNames, List.mem_map]
  simp

theorem module?_eq_none_iff {c : Catalog} {name : String} :
    c.module? name = none ↔ name ∉ c.moduleNames := by
  rw [← isSome_module?_iff, Option.not_isSome_iff_eq_none]

end Catalog

namespace Module
variable {m : Module} {t : Installed} {name other : String}

lemma valid_new (name : String) (imports : List String) : (Module.new name imports).Valid where
  nodup_order := List.nodup_nil
  mem_order_iff _ := Iff.rfl
  stored h := by cases h

theorem table?_put : (m.put t).table? other =
    if other = t.table.name then some t else m.table? other :=
  Dictionary.get?_set m.tables t.table.name other t

theorem table?_drop : (m.drop name).table? other =
    if other = name then none else m.table? other :=
  Dictionary.get?_erase m.tables name other

lemma table?_renumber (base : Nat) : (m.renumber base).table? name =
    (m.table? name).map fun t => { t with serial := base + t.serial } :=
  Dictionary.get?_map _ m.tables name

theorem isSome_table?_iff : (m.table? name).isSome ↔ name ∈ m.tables.names :=
  Dictionary.isSome_get?_iff

lemma Valid.withImports (h : m.Valid) (imports : List String) : Valid { m with imports } :=
  ⟨h.nodup_order, h.mem_order_iff, h.stored⟩

lemma Valid.put (h : m.Valid) (ht : t.table.StoredAt m.name t.table.name) : (m.put t).Valid where
  nodup_order := by
    unfold Module.put
    dsimp only
    split
    · exact h.nodup_order
    · rename_i hnone
      rw [isSome_table?_iff, ← h.mem_order_iff] at hnone
      rw [← List.concat_eq_append]
      exact h.nodup_order.concat hnone
  mem_order_iff other := by
    change other ∈ (if (m.table? t.table.name).isSome then m.order else m.order ++ [t.table.name]) ↔
      other ∈ (m.tables.set t.table.name t).names
    rw [Dictionary.mem_names_set]
    split
    · rename_i hsome
      rw [isSome_table?_iff] at hsome
      rw [h.mem_order_iff]
      constructor
      · exact Or.inr
      · rintro (rfl | ho)
        · exact hsome
        · exact ho
    · rw [List.mem_append, List.mem_singleton, h.mem_order_iff]
      exact or_comm
  stored {other u} hu := by
    rw [table?_put] at hu
    split at hu
    · rename_i ho
      cases hu
      rw [ho]
      exact ht
    · exact h.stored hu

lemma Valid.drop (h : m.Valid) (name : String) : (m.drop name).Valid where
  nodup_order := h.nodup_order.filter _
  mem_order_iff other := by
    change other ∈ m.order.filter (· ≠ name) ↔ other ∈ (m.tables.erase name).names
    rw [List.mem_filter, Dictionary.mem_names_erase, h.mem_order_iff, decide_eq_true_iff]
    exact and_comm
  stored {other u} hu := by
    rw [table?_drop] at hu
    split at hu
    · cases hu
    · exact h.stored hu

lemma Valid.renumber (h : m.Valid) (base : Nat) : (m.renumber base).Valid where
  nodup_order := h.nodup_order
  mem_order_iff other := by
    change other ∈ m.order ↔ other ∈ (m.tables.map _).names
    rw [Dictionary.names_map]
    exact h.mem_order_iff other
  stored {name u} hu := by
    rw [table?_renumber] at hu
    obtain ⟨t, ht, rfl⟩ := Option.map_eq_some_iff.1 hu
    have hst := h.stored ht
    exact hst

theorem mem_listing_iff (h : m.Valid) : t ∈ m.listing ↔ ∃ name, m.table? name = some t := by
  rw [listing, List.mem_filterMap]
  constructor
  · rintro ⟨name, _, ht⟩
    exact ⟨name, ht⟩
  · rintro ⟨name, ht⟩
    refine ⟨name, ?_, ht⟩
    rw [h.mem_order_iff, ← isSome_table?_iff, ht]
    rfl

theorem listing_renumber (m : Module) (base : Nat) : (m.renumber base).listing =
    m.listing.map fun t => { t with serial := base + t.serial } := by
  rw [listing, listing, List.map_filterMap]
  apply List.filterMap_congr
  intro name _
  exact table?_renumber base

/-- As many tables are listed as there are. -/
theorem length_listing (h : m.Valid) : m.listing.length = m.tables.size := by
  have hsome : ∀ name ∈ m.order, (m.table? name).isSome := fun name hn => by
    rwa [isSome_table?_iff, ← h.mem_order_iff]
  have hperm : m.order.Perm m.tables.names :=
    (List.perm_ext_iff_of_nodup h.nodup_order m.tables.distinct).2 h.mem_order_iff
  rw [listing, List.length_filterMap_eq_countP, List.countP_eq_length.2 hsome, hperm.length_eq,
    Dictionary.length_names]

end Module

namespace Catalog
variable {c c' : Catalog} {name : String}

theorem tableCount_eq (h : c.Valid) : c.tableCount = c.tables.length := by
  have hcount : ∀ ms : List Module, (∀ m ∈ ms, m.Valid) →
      ms.foldr (fun m n => m.tables.size + n) 0 = (ms.flatMap Module.listing).length := by
    intro ms hms
    induction ms with
    | nil => rfl
    | cons m ms ih =>
      rw [List.foldr_cons, List.flatMap_cons, List.length_append,
        ih fun m' hm' => hms m' (List.mem_cons_of_mem _ hm'),
        Module.length_listing (hms m List.mem_cons_self)]
  exact hcount c.modules h.modules

theorem mem_tables_iff (h : c.Valid) {t : Installed} :
    t ∈ c.tables ↔ ∃ m ∈ c.modules, ∃ name, m.table? name = some t := by
  rw [tables, List.mem_flatMap]
  constructor
  · rintro ⟨m, hm, ht⟩
    exact ⟨m, hm, (Module.mem_listing_iff (h.modules m hm)).1 ht⟩
  · rintro ⟨m, hm, ht⟩
    exact ⟨m, hm, (Module.mem_listing_iff (h.modules m hm)).2 ht⟩

theorem Valid.sized (h : c.Valid) {t : Installed} (ht : t ∈ c.tables) : t.table.Sized := by
  obtain ⟨m, hm, name, hname⟩ := (mem_tables_iff h).1 ht
  exact ((h.modules m hm).stored hname).sized

/-- Only modules and the current name matter. -/
theorem Valid.congr (h : c.Valid) (hm : c'.modules = c.modules) (hc : c'.current = c.current) :
    c'.Valid := by
  have hn : c'.moduleNames = c.moduleNames := by rw [moduleNames, hm, moduleNames]
  refine ⟨?_, ?_, ?_, ?_, ?_⟩
  · rw [hn]
    exact h.nodup_modules
  · rw [hn]
    exact h.first
  · rw [hm, hn]
    exact h.imports
  · rw [hc, hn]
    exact h.current
  · rw [hm]
    exact h.modules

theorem valid_initial : initial.Valid where
  nodup_modules := List.nodup_singleton _
  first := rfl
  imports m hm i hi := by
    rw [List.mem_singleton.1 hm] at hi
    cases hi
  current := List.mem_singleton.2 rfl
  modules m hm := by
    rw [List.mem_singleton.1 hm]
    exact Module.valid_new mainModule []

theorem Valid.setCurrent (h : c.Valid) (hs : c.setCurrent name = .ok c') : c'.Valid := by
  obtain ⟨hm, rfl⟩ := setCurrent_eq_ok hs
  exact ⟨h.nodup_modules, h.first, h.imports, isSome_module?_iff.1 hm, h.modules⟩

section Update
variable {f : Module → Module}

lemma moduleNames_updateModule (hf : ∀ m, (f m).name = m.name) :
    (c.updateModule name f).moduleNames = c.moduleNames := by
  rw [moduleNames, updateModule, List.map_map, moduleNames]
  apply List.map_congr_left
  intro m _
  rw [Function.comp_apply]
  split
  · exact hf m
  · rfl

/-- The change of a module that keeps its name and imports and its being valid. -/
theorem Valid.updateModule (h : c.Valid) (hname : ∀ m, (f m).name = m.name)
    (himports : ∀ m, ∀ i ∈ (f m).imports, i ∈ m.imports ∨ i ∈ c.moduleNames)
    (hvalid : ∀ m, m.name = name → m.Valid → (f m).Valid) : (c.updateModule name f).Valid := by
  have hn : (c.updateModule name f).moduleNames = c.moduleNames := moduleNames_updateModule hname
  refine ⟨?_, ?_, ?_, ?_, ?_⟩
  · rw [hn]
    exact h.nodup_modules
  · rw [hn]
    exact h.first
  · intro m' hm' i hi
    obtain ⟨m, hm, rfl⟩ := List.mem_map.1 hm'
    rw [hn]
    split at hi
    · obtain hi | hi := himports m i hi
      · exact h.imports m hm i hi
      · exact hi
    · exact h.imports m hm i hi
  · rw [hn]
    exact h.current
  · intro m' hm'
    obtain ⟨m, hm, rfl⟩ := List.mem_map.1 hm'
    split
    · rename_i hmn
      exact hvalid m hmn (h.modules m hm)
    · exact h.modules m hm

end Update

/-- A new module, which becomes the current one. -/
theorem Valid.append (h : c.Valid) (hnew : name ∉ c.moduleNames) {imports : List String}
    (himports : ∀ i ∈ imports, i ∈ c.moduleNames) :
    Valid { c with current := name, modules := c.modules ++ [.new name imports] } := by
  have hn : moduleNames { c with current := name, modules := c.modules ++ [.new name imports] } =
      c.moduleNames ++ [name] := List.map_append
  refine ⟨?_, ?_, ?_, ?_, ?_⟩
  · rw [hn, ← List.concat_eq_append]
    exact h.nodup_modules.concat hnew
  · rw [hn, List.head?_append, h.first]
    rfl
  · intro m hm i hi
    rw [hn, List.mem_append]
    obtain hm | hm := List.mem_append.1 hm
    · exact Or.inl (h.imports m hm i hi)
    · rw [List.mem_singleton.1 hm] at hi
      exact Or.inl (himports i hi)
  · rw [hn]
    exact List.mem_append_right _ (List.mem_singleton.2 rfl)
  · intro m hm
    obtain hm | hm := List.mem_append.1 hm
    · exact h.modules m hm
    · rw [List.mem_singleton.1 hm]
      exact Module.valid_new name imports

theorem Valid.defineModule (h : c.Valid) {imports : List String}
    (hd : c.defineModule name imports = .ok c') : c'.Valid := by
  obtain ⟨himports, ⟨hm, rfl⟩ | ⟨hm, rfl⟩⟩ := defineModule_eq_ok hd
  · have hcurrent : Valid { c with current := name } :=
      ⟨h.nodup_modules, h.first, h.imports, isSome_module?_iff.1 hm, h.modules⟩
    refine hcurrent.updateModule (fun _ => rfl) ?_ fun m _ hv => hv.withImports imports
    intro m i hi
    exact Or.inr (isSome_module?_iff.1 (himports i hi))
  · exact h.append (module?_eq_none_iff.1 hm) fun i hi => isSome_module?_iff.1 (himports i hi)

theorem Valid.install (h : c.Valid) {table : Table} {t : Installed} (hs : table.Sized)
    (hi : c.install table = .ok (c', t)) : c'.Valid := by
  obtain ⟨rfl, m, hm, _, rfl⟩ := install_eq_ok hi
  have hnext : Valid { c with nextSerial := c.nextSerial + 1 } := h.congr rfl rfl
  refine hnext.updateModule (fun _ => rfl) (fun _ _ hi => Or.inl hi) ?_
  intro m' hm' hv
  refine hv.put ⟨?_, rfl, hs⟩
  rw [hm', name_of_module? hm]

theorem Valid.remove (h : c.Valid) (hr : c.remove name = .ok c') : c'.Valid := by
  obtain ⟨t, m, _, _, _, rfl⟩ := remove_eq_ok hr
  exact h.updateModule (fun _ => rfl) (fun _ _ hi => Or.inl hi) fun m' _ hv => hv.drop _

theorem Valid.succeeding (h : c.Valid) (old : Catalog) : (c.succeeding old).Valid := by
  have hn : (c.succeeding old).moduleNames = c.moduleNames := by
    rw [moduleNames, Catalog.succeeding, List.map_map]
    rfl
  refine ⟨?_, ?_, ?_, ?_, ?_⟩
  · rw [hn]
    exact h.nodup_modules
  · rw [hn]
    exact h.first
  · intro m' hm' i hi
    obtain ⟨m, hm, rfl⟩ := List.mem_map.1 hm'
    rw [hn]
    exact h.imports m hm i hi
  · rw [hn]
    exact h.current
  · intro m' hm'
    obtain ⟨m, hm, rfl⟩ := List.mem_map.1 hm'
    exact (h.modules m hm).renumber _

end Catalog

end KeyedTables
