import KeyedTables.Proofs.Catalog.Reach
import KeyedTables.Proofs.Catalog.Serials

/-!
# Slots

A slot is a name within a module. In a valid catalog every table stands in the slot that it names
itself, and the tables of the catalog are those in its slots; a name, however it is resolved, means
one of them. Removing a table empties its slot and leaves all others as they are.
-/
namespace KeyedTables.Catalog
variable {c c' c'' : Catalog} {owner name : String} {t u : Installed}

def tableAt? (c : Catalog) (owner name : String) : Option Installed :=
  (c.module? owner).bind (·.table? name)

/-- The table stands in the slot that it names. -/
def Holds (c : Catalog) (t : Installed) : Prop := c.tableAt? t.table.module t.table.name = some t

instance (c : Catalog) (t : Installed) : Decidable (c.Holds t) :=
  inferInstanceAs (Decidable (_ = _))

theorem tableAt?_of_module? {m : Module} (h : c.module? owner = some m) :
    c.tableAt? owner name = m.table? name := by
  rw [tableAt?, h, Option.bind_some]

theorem tableAt?_eq_some_iff : c.tableAt? owner name = some t ↔
    ∃ m, c.module? owner = some m ∧ m.table? name = some t := Option.bind_eq_some_iff

theorem isSome_module?_of_tableAt? (h : c.tableAt? owner name = some t) :
    (c.module? owner).isSome := by
  obtain ⟨m, hm, _⟩ := tableAt?_eq_some_iff.1 h
  rw [hm]
  rfl

theorem tableAt?_congr (h : c'.modules = c.modules) (owner name : String) :
    c'.tableAt? owner name = c.tableAt? owner name := by
  rw [tableAt?, module?, h]
  rfl

/-- Each module of a valid catalog is the one of its name. -/
theorem Valid.module?_eq (h : c.Valid) {m : Module} (hm : m ∈ c.modules) :
    c.module? m.name = some m := by
  have hsome : (c.module? m.name).isSome :=
    isSome_module?_iff.2 (List.mem_map.2 ⟨m, hm, rfl⟩)
  obtain ⟨m', hm'⟩ := Option.isSome_iff_exists.1 hsome
  have heq : m' = m :=
    List.inj_on_of_nodup_map h.nodup_modules (mem_of_module? hm') hm (name_of_module? hm')
  rw [hm', heq]

theorem Valid.storedAt (h : c.Valid) (ht : c.tableAt? owner name = some t) :
    t.table.StoredAt owner name := by
  obtain ⟨m, hm, ht⟩ := tableAt?_eq_some_iff.1 ht
  rw [← name_of_module? hm]
  exact (h.modules m (mem_of_module? hm)).stored ht

/-- What stands in a slot names this slot. -/
theorem Valid.holds_of_tableAt? (h : c.Valid) (ht : c.tableAt? owner name = some t) :
    c.Holds t := by
  have hst := h.storedAt ht
  rw [Holds, hst.module_eq, hst.name_eq]
  exact ht

theorem Valid.mem_tables_iff_holds (h : c.Valid) : t ∈ c.tables ↔ c.Holds t := by
  rw [mem_tables_iff h]
  constructor
  · rintro ⟨m, hm, name, ht⟩
    rw [← tableAt?_of_module? (h.module?_eq hm)] at ht
    exact h.holds_of_tableAt? ht
  · intro ht
    obtain ⟨m, hm, ht⟩ := tableAt?_eq_some_iff.1 ht
    exact ⟨m, mem_of_module? hm, _, ht⟩

lemma tableAt?_of_findLocal (h : c.findLocal name = .ok t) :
    ∃ owner, c.tableAt? owner name = some t := by
  unfold findLocal at h
  split at h
  · rename_i hown
    cases h
    exact ⟨c.current, hown⟩
  · split at h
    · cases h
    · rename_i owner t' howners
      cases h
      have hmem : (owner, t) ∈ c.imported.filterMap fun m => (m.table? name).map (m.name, ·) := by
        rw [howners]
        exact List.mem_singleton.2 rfl
      obtain ⟨m, hm, ht⟩ := List.mem_filterMap.1 hmem
      obtain ⟨t', ht, heq⟩ := Option.map_eq_some_iff.1 ht
      cases heq
      refine ⟨m.name, ?_⟩
      rw [tableAt?_of_module? (module?_of_mem_imported hm), ht]
    · cases h

/-- A name that is divided into a module and a local name means what stands in this slot. -/
theorem find_eq_ok_iff {localName : String}
    (hsplit : Text.splitQualified? name = some (owner, localName)) :
    c.find name = .ok t ↔ c.tableAt? owner localName = some t := by
  unfold find tableAt?
  rw [hsplit]
  dsimp only
  cases c.module? owner with
  | none => simp
  | some m =>
    dsimp only [Option.bind_some]
    cases m.table? localName with
    | none => simp
    | some u => simp

/-- A name means a table in some slot. -/
theorem tableAt?_of_find (h : c.find name = .ok t) :
    ∃ owner localName, c.tableAt? owner localName = some t := by
  cases hsplit : Text.splitQualified? name with
  | some r => exact ⟨r.1, r.2, (find_eq_ok_iff hsplit).1 h⟩
  | none =>
    rw [find, hsplit] at h
    obtain ⟨owner, ht⟩ := tableAt?_of_findLocal h
    exact ⟨owner, name, ht⟩

theorem Valid.holds_of_find (h : c.Valid) (hf : c.find name = .ok t) : c.Holds t := by
  obtain ⟨owner, localName, ht⟩ := tableAt?_of_find hf
  exact h.holds_of_tableAt? ht

lemma module?_updateModule (f : Module → Module) (hf : ∀ m, (f m).name = m.name)
    (other : String) :
    (c.updateModule name f).module? other =
      (c.module? other).map fun m => if m.name = name then f m else m := by
  have hname : ∀ m : Module, (if m.name = name then f m else m).name = m.name := by
    intro m
    split
    · exact hf m
    · rfl
  rw [module?, updateModule, List.find?_map, module?]
  congr 2
  funext m
  simp [hname]

/-- A module that is changed has other tables; those of the others are the same. -/
theorem tableAt?_updateModule {f : Module → Module} (hf : ∀ m, (f m).name = m.name)
    (c : Catalog) (owner owner' name' : String) :
    (c.updateModule owner f).tableAt? owner' name' =
      if owner' = owner then (c.module? owner').bind fun m => (f m).table? name'
      else c.tableAt? owner' name' := by
  rw [tableAt?, module?_updateModule f hf, tableAt?]
  cases hm : c.module? owner' with
  | none => simp
  | some m =>
    rw [Option.map_some, Option.bind_some, Option.bind_some, name_of_module? hm]
    by_cases ho : owner' = owner
    · simp [ho]
    · simp [ho]

theorem tableAt?_updateModule_drop (c : Catalog) (owner name owner' name' : String) :
    (c.updateModule owner (·.drop name)).tableAt? owner' name' =
      if owner' = owner ∧ name' = name then none else c.tableAt? owner' name' := by
  rw [tableAt?_updateModule (f := (·.drop name)) fun _ => rfl, tableAt?]
  by_cases ho : owner' = owner
  · by_cases hn : name' = name
    · simp [ho, hn, Module.table?_drop]
    · simp [ho, hn, Module.table?_drop]
  · simp [ho]

theorem tableAt?_updateModule_put (c : Catalog) {owner : String} (h : (c.module? owner).isSome)
    (t : Installed) (owner' name' : String) :
    (c.updateModule owner (·.put t)).tableAt? owner' name' =
      if owner' = owner ∧ name' = t.table.name then some t else c.tableAt? owner' name' := by
  rw [tableAt?_updateModule (f := (·.put t)) fun _ => rfl, tableAt?]
  obtain ⟨m, hm⟩ := Option.isSome_iff_exists.1 h
  by_cases ho : owner' = owner
  · by_cases hn : name' = t.table.name
    · simp [ho, hn, hm, Module.table?_put]
    · simp [ho, hn, Module.table?_put]
  · simp [ho]

/-- Removing a table empties its slot. -/
theorem tableAt?_remove (h : c.remove name = .ok c') :
    ∃ t, c.find name = .ok t ∧ c.busy t = 0 ∧ ∀ owner localName, c'.tableAt? owner localName =
      if owner = t.table.module ∧ localName = t.table.name then none
      else c.tableAt? owner localName := by
  obtain ⟨t, m, hf, hb, hm, rfl⟩ := remove_eq_ok h
  refine ⟨t, hf, hb, fun owner localName => ?_⟩
  rw [tableAt?_updateModule_drop, name_of_module? hm]

/-- A busy table stays where it is, whatever is removed. -/
theorem Holds.remove (ht : c.Holds t) (h : c.Valid) (hbusy : 0 < c.busy t)
    (hr : c.remove name = .ok c') : c'.Holds t := by
  obtain ⟨u, hf, hfree, hslots⟩ := tableAt?_remove hr
  have hu : c.Holds u := h.holds_of_find hf
  rw [Holds, hslots]
  split
  · rename_i hsame
    rw [Holds, ← hsame.1, ← hsame.2, ht] at hu
    cases hu
    omega
  · exact ht

/-- The same modules, with some tables taken away. -/
structure Thinned (c c' : Catalog) : Prop where
  modules (owner : String) : (c'.module? owner).isSome = (c.module? owner).isSome
  slots {owner name : String} {t : Installed} :
    c'.tableAt? owner name = some t → c.tableAt? owner name = some t

theorem Thinned.refl (c : Catalog) : Thinned c c := ⟨fun _ => rfl, fun h => h⟩

theorem Thinned.trans (h : Thinned c c') (h' : Thinned c' c'') : Thinned c c'' :=
  ⟨fun owner => (h'.modules owner).trans (h.modules owner), fun ht => h.slots (h'.slots ht)⟩

theorem Thinned.of_modules_eq (h : c'.modules = c.modules) : Thinned c c' where
  modules owner := by
    rw [module?, h]
    rfl
  slots ht := by rwa [tableAt?_congr h] at ht

theorem Thinned.remove (h : c.remove name = .ok c') : Thinned c c' where
  modules owner := by
    obtain ⟨t, m, _, _, _, rfl⟩ := remove_eq_ok h
    rw [module?_updateModule (·.drop t.table.name) fun _ => rfl, Option.isSome_map]
  slots ht := by
    obtain ⟨t, _, _, hslots⟩ := tableAt?_remove h
    rw [hslots] at ht
    split at ht
    · cases ht
    · exact ht

end KeyedTables.Catalog
