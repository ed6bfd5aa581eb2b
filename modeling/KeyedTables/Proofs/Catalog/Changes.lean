import KeyedTables.Catalog.Names

/-!
# Changes of a catalog

What each operation makes of a catalog when it succeeds, conditions included. Nothing but a pin and
its release changes the pins.
-/
namespace KeyedTables.Catalog
variable {c c' : Catalog} {name : String} {t : Installed}

theorem name_of_module? {m : Module} (h : c.module? name = some m) : m.name = name := by
  simpa using List.find?_some h

theorem mem_of_module? {m : Module} (h : c.module? name = some m) : m ∈ c.modules :=
  List.mem_of_find?_eq_some h

theorem setCurrent_eq_ok (h : c.setCurrent name = .ok c') :
    (c.module? name).isSome ∧ c' = { c with current := name } := by
  unfold setCurrent at h
  split at h
  · rename_i hm
    cases h
    exact ⟨hm, rfl⟩
  · cases h

theorem defineModule_eq_ok {imports : List String} (h : c.defineModule name imports = .ok c') :
    (∀ i ∈ imports, (c.module? i).isSome) ∧
      (((c.module? name).isSome ∧
          c' = ({ c with current := name }).updateModule name fun m => { m with imports }) ∨
        (c.module? name = none ∧
          c' = { c with current := name, modules := c.modules ++ [.new name imports] })) := by
  unfold defineModule at h
  split at h
  · cases h
  · rename_i hi
    constructor
    · intro i hmem
      have hn := List.find?_eq_none.1 hi i hmem
      simpa [Option.ne_none_iff_isSome] using hn
    · by_cases hm : (c.module? name).isSome
      · simp only [hm, if_true] at h
        cases h
        exact Or.inl ⟨hm, rfl⟩
      · simp only [hm] at h
        cases h
        exact Or.inr ⟨Option.not_isSome_iff_eq_none.1 hm, rfl⟩

theorem exists_defineModule {imports : List String} (h : ∀ i ∈ imports, (c.module? i).isSome)
    (name : String) : ∃ c', c.defineModule name imports = .ok c' := by
  have hnone : imports.find? (fun i => (c.module? i).isNone) = none := by
    rw [List.find?_eq_none]
    intro i hi
    have hsome := h i hi
    simpa [Option.ne_none_iff_isSome] using hsome
  unfold defineModule
  rw [hnone]
  dsimp only
  split
  · exact ⟨_, rfl⟩
  · exact ⟨_, rfl⟩

theorem install_eq_ok {table : Table} (h : c.install table = .ok (c', t)) :
    t = ⟨c.nextSerial, table⟩ ∧ ∃ m, c.module? table.module = some m ∧
      (∀ old, m.table? table.name = some old → c.busy old = 0) ∧
        c' = ({ c with nextSerial := c.nextSerial + 1 }).updateModule m.name (·.put t) := by
  unfold install at h
  cases hm : c.module? table.module with
  | none =>
    rw [hm] at h
    cases h
  | some m =>
    rw [hm] at h
    dsimp only at h
    cases ho : m.table? table.name with
    | none =>
      rw [ho] at h
      cases h
      refine ⟨rfl, m, rfl, ?_, rfl⟩
      intro old hold
      rw [ho] at hold
      cases hold
    | some old =>
      rw [ho] at h
      dsimp only at h
      split at h
      · cases h
      · rename_i hb
        cases h
        refine ⟨rfl, m, rfl, ?_, rfl⟩
        intro old' hold
        rw [ho] at hold
        cases hold
        omega

/-- A table of a new name can be installed. -/
theorem exists_install {table : Table} {m : Module} (hm : c.module? table.module = some m)
    (hnew : m.table? table.name = none) : ∃ c' t, c.install table = .ok (c', t) := by
  unfold install
  rw [hm]
  dsimp only
  rw [hnew]
  exact ⟨_, _, rfl⟩

theorem remove_eq_ok (h : c.remove name = .ok c') :
    ∃ t m, c.find name = .ok t ∧ c.busy t = 0 ∧ c.module? t.table.module = some m ∧
      c' = c.updateModule m.name (·.drop t.table.name) := by
  unfold remove at h
  cases hf : c.find name with
  | error e =>
    rw [hf] at h
    cases h
  | ok t =>
    rw [hf] at h
    dsimp only at h
    split at h
    · cases h
    · rename_i hb
      cases hm : c.module? t.table.module with
      | none =>
        rw [hm] at h
        cases h
      | some m =>
        rw [hm] at h
        cases h
        exact ⟨t, m, rfl, by omega, hm, rfl⟩

theorem current_remove (h : c.remove name = .ok c') : c'.current = c.current := by
  obtain ⟨t, m, _, _, _, rfl⟩ := remove_eq_ok h
  rfl

theorem pins_setCurrent (h : c.setCurrent name = .ok c') : c'.pins = c.pins := by
  obtain ⟨_, rfl⟩ := setCurrent_eq_ok h
  rfl

theorem pins_defineModule {imports : List String} (h : c.defineModule name imports = .ok c') :
    c'.pins = c.pins := by
  obtain ⟨_, ⟨_, rfl⟩ | ⟨_, rfl⟩⟩ := defineModule_eq_ok h
  · rfl
  · rfl

theorem pins_install {table : Table} (h : c.install table = .ok (c', t)) : c'.pins = c.pins := by
  obtain ⟨_, m, _, _, rfl⟩ := install_eq_ok h
  rfl

theorem pins_remove (h : c.remove name = .ok c') : c'.pins = c.pins := by
  obtain ⟨u, m, _, _, _, rfl⟩ := remove_eq_ok h
  rfl

end KeyedTables.Catalog
