import KeyedTables.Proofs.Catalog.Changes
import Mathlib.Logic.Relation

/-!
# Modules reached through imports

The search through imports finds the modules that can be reached by following imports, each once,
whatever cycles the imports form. What it has found and what was visited before contain everything
that was pending, and everything that a module found imports; so nothing that can be reached is
missed.
-/
namespace KeyedTables.Catalog
variable {c : Catalog} {visited pending : List String} {m : Module} {name : String}

/-- A module imports another one. Both exist. -/
def Imports (c : Catalog) (importer imported : String) : Prop :=
  ∃ m, c.module? importer = some m ∧ imported ∈ m.imports ∧ (c.module? imported).isSome

lemma imports_iff_any {importer imported : String} : c.Imports importer imported ↔
    (c.module? importer).any fun m => imported ∈ m.imports ∧ (c.module? imported).isSome := by
  simp [Imports, Option.any_eq_true]

instance (c : Catalog) (importer imported : String) : Decidable (c.Imports importer imported) :=
  decidable_of_iff _ imports_iff_any.symm

/-- A module other than the current one, to which one or more imports lead from there. -/
def Reaches (c : Catalog) (name : String) : Prop :=
  name ≠ c.current ∧ Relation.TransGen c.Imports c.current name

lemma module?_of_mem_reach (h : m ∈ c.reach visited pending) : c.module? m.name = some m := by
  fun_induction c.reach visited pending with
  | case1 => cases h
  | case2 _ _ _ _ ih => exact ih h
  | case3 _ _ _ _ _ ih => exact ih h
  | case4 _ name rest _ m' hm' ih =>
    obtain rfl | h := List.mem_cons.1 h
    · rw [name_of_module? hm', hm']
    · exact ih h

lemma notMem_of_mem_reach (h : m ∈ c.reach visited pending) : m.name ∉ visited := by
  fun_induction c.reach visited pending with
  | case1 => cases h
  | case2 _ _ _ _ ih => exact ih h
  | case3 _ _ _ _ _ ih => exact ih h
  | case4 _ name rest hv m' hm' ih =>
    obtain rfl | h := List.mem_cons.1 h
    · rw [name_of_module? hm']
      exact hv
    · exact fun hmem => ih h (List.mem_cons_of_mem _ hmem)

lemma nodup_reach (c : Catalog) (visited pending : List String) :
    ((c.reach visited pending).map Module.name).Nodup := by
  fun_induction c.reach visited pending with
  | case1 => exact List.nodup_nil
  | case2 _ _ _ _ ih => exact ih
  | case3 _ _ _ _ _ ih => exact ih
  | case4 visited name rest _ m' hm' ih =>
    rw [List.map_cons, List.nodup_cons]
    refine ⟨fun hmem => ?_, ih⟩
    obtain ⟨m, hm, hname⟩ := List.mem_map.1 hmem
    apply notMem_of_mem_reach hm
    rw [hname, name_of_module? hm']
    exact List.mem_cons_self

/-- Imports lead to what is found from something that was pending. -/
theorem exists_pending_of_mem_reach (h : m ∈ c.reach visited pending) :
    ∃ p ∈ pending, (c.module? p).isSome ∧ Relation.ReflTransGen c.Imports p m.name := by
  fun_induction c.reach visited pending with
  | case1 => cases h
  | case2 _ _ _ _ ih | case3 _ _ _ _ _ ih =>
    obtain ⟨p, hp, hleads⟩ := ih h
    exact ⟨p, List.mem_cons_of_mem _ hp, hleads⟩
  | case4 _ name rest _ m' hm' ih =>
    have hsome : (c.module? name).isSome := by rw [hm']; rfl
    obtain rfl | h := List.mem_cons.1 h
    · rw [name_of_module? hm']
      exact ⟨name, List.mem_cons_self, hsome, .refl⟩
    · obtain ⟨p, hp, hpsome, hleads⟩ := ih h
      obtain hp | hp := List.mem_append.1 hp
      · exact ⟨name, List.mem_cons_self, hsome, .head ⟨m', hm', hp, hpsome⟩ hleads⟩
      · exact ⟨p, List.mem_cons_of_mem _ hp, hpsome, hleads⟩

/-- A module that is visited is one of those found. -/
theorem mem_of_visited_cons {first : String} {ms : List Module} (hm : c.module? first = some m)
    (h : name ∈ first :: visited ∨ name ∈ ms.map Module.name) :
    name ∈ visited ∨ name ∈ (m :: ms).map Module.name := by
  rw [List.map_cons, List.mem_cons, name_of_module? hm]
  rcases h with h | h
  · rcases List.mem_cons.1 h with rfl | h
    · exact Or.inr (Or.inl rfl)
    · exact Or.inl h
  · exact Or.inr (Or.inr h)

/-- Every module that was pending has been visited before or is found. -/
theorem mem_of_pending (h : name ∈ pending) (hm : (c.module? name).isSome) :
    name ∈ visited ∨ name ∈ (c.reach visited pending).map Module.name := by
  fun_induction c.reach visited pending with
  | case1 => cases h
  | case2 visited first rest hv ih =>
    obtain rfl | h := List.mem_cons.1 h
    · exact Or.inl hv
    · exact ih h
  | case3 visited first rest _ hnone ih =>
    obtain rfl | h := List.mem_cons.1 h
    · rw [hnone] at hm
      cases hm
    · exact ih h
  | case4 visited first rest _ m' hm' ih =>
    apply mem_of_visited_cons hm'
    obtain rfl | h := List.mem_cons.1 h
    · exact Or.inl List.mem_cons_self
    · exact ih (List.mem_append_right _ h)

/-- Every module that one of those found imports has been visited before or is found. -/
theorem mem_of_imported (h : m ∈ c.reach visited pending) (hi : name ∈ m.imports)
    (hm : (c.module? name).isSome) :
    name ∈ visited ∨ name ∈ (c.reach visited pending).map Module.name := by
  fun_induction c.reach visited pending with
  | case1 => cases h
  | case2 _ _ _ _ ih => exact ih h
  | case3 _ _ _ _ _ ih => exact ih h
  | case4 visited first rest _ m' hm' ih =>
    apply mem_of_visited_cons hm'
    obtain rfl | h := List.mem_cons.1 h
    · exact mem_of_pending (List.mem_append_left _ hi) hm
    · exact ih h

theorem nodup_imported (c : Catalog) : (c.imported.map Module.name).Nodup := by
  unfold imported
  split
  · exact nodup_reach c _ _
  · exact List.nodup_nil

theorem module?_of_mem_imported (h : m ∈ c.imported) : c.module? m.name = some m := by
  unfold imported at h
  split at h
  · exact module?_of_mem_reach h
  · cases h

/-- The modules searched are those reached by imports. -/
theorem mem_imported_iff : name ∈ c.imported.map Module.name ↔ c.Reaches name := by
  unfold imported
  cases hcurrent : c.module? c.current with
  | none =>
    refine ⟨fun h => (List.not_mem_nil h).elim, fun ⟨_, hleads⟩ => ?_⟩
    obtain ⟨_, ⟨m, hm, _⟩, _⟩ := Relation.TransGen.head'_iff.1 hleads
    rw [hcurrent] at hm
    cases hm
  | some m =>
    constructor
    · intro h
      obtain ⟨m', hm', rfl⟩ := List.mem_map.1 h
      obtain ⟨p, hp, hsome, hleads⟩ := exists_pending_of_mem_reach hm'
      refine ⟨fun heq => notMem_of_mem_reach hm' (List.mem_singleton.2 heq), ?_⟩
      exact .head' ⟨m, hcurrent, hp, hsome⟩ hleads
    · rintro ⟨hne, hleads⟩
      have hmem : name ∈ [c.current] ∨ name ∈ (c.reach [c.current] m.imports).map Module.name := by
        clear hne
        induction hleads with
        | single himports =>
          obtain ⟨m', hm', hi, hsome⟩ := himports
          rw [hcurrent] at hm'
          cases hm'
          exact mem_of_pending hi hsome
        | tail _ himports ih =>
          obtain ⟨m', hm', hi, hsome⟩ := himports
          obtain hstart | hfound := ih
          · rw [List.mem_singleton.1 hstart, hcurrent] at hm'
            cases hm'
            exact mem_of_pending hi hsome
          · obtain ⟨m₀, hm₀, rfl⟩ := List.mem_map.1 hfound
            rw [module?_of_mem_reach hm₀] at hm'
            cases hm'
            exact mem_of_imported hm₀ hi hsome
      exact hmem.resolve_left fun hstart => hne (List.mem_singleton.1 hstart)

end KeyedTables.Catalog
