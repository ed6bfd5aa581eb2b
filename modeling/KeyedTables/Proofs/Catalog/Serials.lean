import KeyedTables.Proofs.Catalog.Listings

/-!
# Serial numbers

The serial numbers of a catalog tell its tables apart, also from those that are no longer in it: an
installed table gets a number that was never used, and a catalog that takes the place of another one
counts on from where that one stopped.
-/
namespace KeyedTables

/-- Tables of which no two share a serial number, all numbers being less than the next one. -/
structure Numbered (next : Nat) (ts : List Installed) : Prop where
  lt : ∀ t ∈ ts, t.serial < next
  eq_of_serial_eq : ∀ t ∈ ts, ∀ u ∈ ts, t.serial = u.serial → t = u

namespace Numbered
variable {next other : Nat} {ts us vs : List Installed}

lemma nil (next : Nat) : Numbered next [] where
  lt _ ht := by cases ht
  eq_of_serial_eq _ ht := by cases ht

lemma mono (h : Numbered next ts) (hsub : ∀ u ∈ us, u ∈ ts) : Numbered next us :=
  ⟨fun u hu => h.lt u (hsub u hu),
    fun u hu v hv huv => h.eq_of_serial_eq u (hsub u hu) v (hsub v hv) huv⟩

/-- One more table gets the next number. -/
theorem insert (h : Numbered next ts) {t : Installed} (ht : t.serial = next)
    (hsub : ∀ u ∈ us, u = t ∨ u ∈ ts) : Numbered (next + 1) us where
  lt u hu := by
    obtain rfl | hu := hsub u hu
    · omega
    · exact Nat.lt_succ_of_lt (h.lt u hu)
  eq_of_serial_eq u hu v hv huv := by
    obtain rfl | hu := hsub u hu
    · obtain rfl | hv := hsub v hv
      · rfl
      · have hlt := h.lt v hv
        omega
    · obtain rfl | hv := hsub v hv
      · have hlt := h.lt u hu
        omega
      · exact h.eq_of_serial_eq u hu v hv huv

/-- Tables numbered anew from the next number on. -/
theorem succeed (h : Numbered next ts) (h' : Numbered other vs)
    (hsub : ∀ u ∈ us, u ∈ ts ∨ ∃ v ∈ vs, u = { v with serial := next + v.serial }) :
    Numbered (next + other) us where
  lt u hu := by
    obtain hu | ⟨v, hv, rfl⟩ := hsub u hu
    · exact Nat.lt_add_right other (h.lt u hu)
    · exact Nat.add_lt_add_left (h'.lt v hv) next
  eq_of_serial_eq u hu w hw huw := by
    obtain hu | ⟨v, hv, rfl⟩ := hsub u hu
    · obtain hw | ⟨x, hx, rfl⟩ := hsub w hw
      · exact h.eq_of_serial_eq u hu w hw huw
      · have hlt := h.lt u hu
        dsimp only at huw
        omega
    · obtain hw | ⟨x, hx, rfl⟩ := hsub w hw
      · have hlt := h.lt w hw
        dsimp only at huw
        omega
      · rw [h'.eq_of_serial_eq v hv x hx (Nat.add_left_cancel huw)]

end Numbered

namespace Catalog
variable {c c' : Catalog} {name : String} {t u : Installed}

lemma mem_tables_updateModule {f : Module → Module} (h : u ∈ (c.updateModule name f).tables) :
    u ∈ c.tables ∨ ∃ m ∈ c.modules, m.name = name ∧ u ∈ (f m).listing := by
  obtain ⟨m', hm', hu⟩ := List.mem_flatMap.1 h
  obtain ⟨m, hm, rfl⟩ := List.mem_map.1 hm'
  split at hu
  · rename_i hmn
    exact Or.inr ⟨m, hm, hmn, hu⟩
  · exact Or.inl (List.mem_flatMap.2 ⟨m, hm, hu⟩)

lemma mem_listing_put {m : Module} (h : u ∈ (m.put t).listing) : u = t ∨ u ∈ m.listing := by
  obtain ⟨n, hn, hu⟩ := List.mem_filterMap.1 h
  rw [Module.table?_put] at hu
  split at hu
  · cases hu
    exact Or.inl rfl
  · rename_i hne
    refine Or.inr (List.mem_filterMap.2 ⟨n, ?_, hu⟩)
    change n ∈ (if (m.table? t.table.name).isSome then m.order else m.order ++ [t.table.name]) at hn
    split at hn
    · exact hn
    · obtain hn | hn := List.mem_append.1 hn
      · exact hn
      · exact absurd (List.mem_singleton.1 hn) hne

lemma mem_tables_install {table : Table} (hi : c.install table = .ok (c', t))
    (hu : u ∈ c'.tables) : u = t ∨ u ∈ c.tables := by
  obtain ⟨rfl, m, _, _, rfl⟩ := install_eq_ok hi
  obtain hu | ⟨m', hm', _, hu⟩ := mem_tables_updateModule hu
  · exact Or.inr hu
  · obtain rfl | hu := mem_listing_put hu
    · exact Or.inl rfl
    · exact Or.inr (List.mem_flatMap.2 ⟨m', hm', hu⟩)

lemma mem_tables_remove (hr : c.remove name = .ok c') (hu : u ∈ c'.tables) : u ∈ c.tables :=
  (tables_remove_sublist hr).subset hu

lemma mem_tables_defineModule {imports : List String}
    (hd : c.defineModule name imports = .ok c') (hu : u ∈ c'.tables) : u ∈ c.tables := by
  obtain ⟨_, ⟨_, rfl⟩ | ⟨_, rfl⟩⟩ := defineModule_eq_ok hd
  · obtain hu | ⟨m, hm, _, hu⟩ := mem_tables_updateModule hu
    · exact hu
    · exact List.mem_flatMap.2 ⟨m, hm, hu⟩
  · obtain ⟨m, hm, hu⟩ := List.mem_flatMap.1 hu
    obtain hm | hm := List.mem_append.1 hm
    · exact List.mem_flatMap.2 ⟨m, hm, hu⟩
    · rw [List.mem_singleton.1 hm] at hu
      cases hu

lemma tables_succeeding (c old : Catalog) : (c.succeeding old).tables =
    c.tables.map fun t => { t with serial := old.nextSerial + t.serial } := by
  rw [tables, tables, succeeding, List.flatMap_map, List.map_flatMap]
  apply List.flatMap_congr
  intro m _
  exact Module.listing_renumber m old.nextSerial

lemma nextSerial_setCurrent (h : c.setCurrent name = .ok c') : c'.nextSerial = c.nextSerial := by
  obtain ⟨_, rfl⟩ := setCurrent_eq_ok h
  rfl

lemma nextSerial_defineModule {imports : List String}
    (h : c.defineModule name imports = .ok c') : c'.nextSerial = c.nextSerial := by
  obtain ⟨_, ⟨_, rfl⟩ | ⟨_, rfl⟩⟩ := defineModule_eq_ok h
  · rfl
  · rfl

lemma nextSerial_remove (h : c.remove name = .ok c') : c'.nextSerial = c.nextSerial := by
  obtain ⟨t, m, _, _, _, rfl⟩ := remove_eq_ok h
  rfl

/-- The tables of a catalog are told apart from each other and from some others. -/
def NumberedWith (c : Catalog) (others : List Installed) : Prop :=
  Numbered c.nextSerial (others ++ c.tables)

variable {others : List Installed}

lemma numberedWith_initial : initial.NumberedWith [] := Numbered.nil 0

lemma NumberedWith.of_mem (h : c.NumberedWith others) (hn : c'.nextSerial = c.nextSerial)
    (hsub : ∀ u ∈ c'.tables, u ∈ c.tables) : c'.NumberedWith others := by
  unfold NumberedWith
  rw [hn]
  refine Numbered.mono h fun u hu => ?_
  obtain hu | hu := List.mem_append.1 hu
  · exact List.mem_append_left _ hu
  · exact List.mem_append_right _ (hsub u hu)

lemma NumberedWith.setCurrent (h : c.NumberedWith others) (hs : c.setCurrent name = .ok c') :
    c'.NumberedWith others := by
  refine h.of_mem (nextSerial_setCurrent hs) fun u hu => ?_
  obtain ⟨_, rfl⟩ := setCurrent_eq_ok hs
  exact hu

lemma NumberedWith.defineModule (h : c.NumberedWith others) {imports : List String}
    (hd : c.defineModule name imports = .ok c') : c'.NumberedWith others :=
  h.of_mem (nextSerial_defineModule hd) fun _ hu => mem_tables_defineModule hd hu

lemma NumberedWith.remove (h : c.NumberedWith others) (hr : c.remove name = .ok c') :
    c'.NumberedWith others :=
  h.of_mem (nextSerial_remove hr) fun _ hu => mem_tables_remove hr hu

lemma NumberedWith.install (h : c.NumberedWith others) {table : Table}
    (hi : c.install table = .ok (c', t)) : c'.NumberedWith others := by
  have hn : c'.nextSerial = c.nextSerial + 1 ∧ t.serial = c.nextSerial := by
    obtain ⟨rfl, m, _, _, rfl⟩ := install_eq_ok hi
    exact ⟨rfl, rfl⟩
  unfold NumberedWith
  rw [hn.1]
  refine Numbered.insert h hn.2 fun u hu => ?_
  obtain hu | hu := List.mem_append.1 hu
  · exact Or.inr (List.mem_append_left _ hu)
  · obtain rfl | hu := mem_tables_install hi hu
    · exact Or.inl rfl
    · exact Or.inr (List.mem_append_right _ hu)

lemma NumberedWith.succeeding {old : Catalog} (h : c.NumberedWith [])
    (hold : old.NumberedWith others) : (c.succeeding old).NumberedWith others := by
  refine Numbered.succeed hold h fun u hu => ?_
  obtain hu | hu := List.mem_append.1 hu
  · exact Or.inl (List.mem_append_left _ hu)
  · rw [tables_succeeding] at hu
    obtain ⟨v, hv, rfl⟩ := List.mem_map.1 hu
    exact Or.inr ⟨v, hv, rfl⟩

lemma NumberedWith.take (h : c.NumberedWith others) (ht : t ∈ c.tables) :
    c.NumberedWith (others ++ [t]) := by
  refine Numbered.mono h fun u hu => ?_
  obtain hu | hu := List.mem_append.1 hu
  · obtain hu | hu := List.mem_append.1 hu
    · exact List.mem_append_left _ hu
    · rw [List.mem_singleton.1 hu]
      exact List.mem_append_right _ ht
  · exact List.mem_append_right _ hu

structure Sound (c : Catalog) (others : List Installed) : Prop where
  valid : c.Valid
  numbered : c.NumberedWith others

theorem sound_initial : initial.Sound [] := ⟨valid_initial, numberedWith_initial⟩

/-- Only modules, the current name and the next serial number matter. -/
theorem Sound.congr (h : c.Sound others) (hm : c'.modules = c.modules)
    (hc : c'.current = c.current) (hn : c'.nextSerial = c.nextSerial) : c'.Sound others := by
  refine ⟨h.valid.congr hm hc, h.numbered.of_mem hn fun u hu => ?_⟩
  rwa [tables, hm] at hu

theorem Sound.setCurrent (h : c.Sound others) (hs : c.setCurrent name = .ok c') :
    c'.Sound others := ⟨h.valid.setCurrent hs, h.numbered.setCurrent hs⟩

theorem Sound.defineModule (h : c.Sound others) {imports : List String}
    (hd : c.defineModule name imports = .ok c') : c'.Sound others :=
  ⟨h.valid.defineModule hd, h.numbered.defineModule hd⟩

theorem Sound.install (h : c.Sound others) {table : Table} (hs : table.Sized)
    (hi : c.install table = .ok (c', t)) : c'.Sound others :=
  ⟨h.valid.install hs hi, h.numbered.install hi⟩

theorem Sound.remove (h : c.Sound others) (hr : c.remove name = .ok c') : c'.Sound others :=
  ⟨h.valid.remove hr, h.numbered.remove hr⟩

theorem Sound.succeeding {old : Catalog} (h : c.Sound []) (hold : old.Sound others) :
    (c.succeeding old).Sound others :=
  ⟨h.valid.succeeding old, h.numbered.succeeding hold.numbered⟩

/-- The tables of a catalog are told apart from themselves. -/
theorem Sound.tables (h : c.Sound others) : c.Sound c.tables := by
  refine ⟨h.valid, Numbered.mono h.numbered fun u hu => ?_⟩
  obtain hu | hu := List.mem_append.1 hu
  · exact List.mem_append_right _ hu
  · exact List.mem_append_right _ hu

theorem Sound.take (h : c.Sound others) (ht : t ∈ c.tables) : c.Sound (others ++ [t]) :=
  ⟨h.valid, h.numbered.take ht⟩

end Catalog

end KeyedTables
