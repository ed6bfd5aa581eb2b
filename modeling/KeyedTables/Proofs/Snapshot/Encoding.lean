import KeyedTables.Proofs.Catalog.Contents
import KeyedTables.Proofs.Snapshot.Decoding
import KeyedTables.Proofs.Snapshot.Reading

/-!
# Payloads of valid catalogs

Every valid catalog has a payload, which its contents alone determine, and decoding the payload
yields a catalog of the same contents.
-/
namespace KeyedTables.Payload

def bare (modules : List (String × List String)) : List Module := modules.map fun m => .new m.1 m.2

section Modules
variable {c : Catalog}

lemma moduleNames_of_bare {modules : List (String × List String)} (h : c.modules = bare modules) :
    c.moduleNames = modules.map Prod.fst := by
  rw [Catalog.moduleNames, h, bare, List.map_map]
  rfl

lemma bare_append (modules more : List (String × List String)) :
    bare (modules ++ more) = bare modules ++ bare more := List.map_append

/-- New modules without imports. -/
theorem defineModules_new {before names : List String} (hnodup : (before ++ names).Nodup)
    (hc : c.modules = bare (before.map (·, []))) :
    ∃ c', defineModules (names.map (·, [])) c = .ok c' ∧
      c'.modules = bare ((before ++ names).map (·, [])) := by
  induction names generalizing before c with
  | nil =>
    rw [List.append_nil]
    exact ⟨c, rfl, hc⟩
  | cons name names ih =>
    have hassoc : before ++ name :: names = before ++ [name] ++ names := by simp
    have hnotMem : name ∉ c.moduleNames := by
      rw [moduleNames_of_bare hc, List.map_map]
      intro hmem
      have hmem' : name ∈ before := by simpa using hmem
      exact (List.nodup_append.1 hnodup).2.2 name hmem' name List.mem_cons_self rfl
    have himports : ∀ i ∈ ([] : List String), (c.module? i).isSome := fun i hi => by cases hi
    obtain ⟨c₁, hd⟩ := Catalog.exists_defineModule himports name
    obtain ⟨_, ⟨hsome, _⟩ | ⟨_, hc₁⟩⟩ := Catalog.defineModule_eq_ok hd
    · exact absurd (Catalog.isSome_module?_iff.1 hsome) hnotMem
    · have hmodules : c₁.modules = bare ((before ++ [name]).map (·, [])) := by
        rw [hc₁, List.map_append, bare_append, ← hc]
        rfl
      rw [hassoc] at hnodup ⊢
      obtain ⟨c', hdefine, h'⟩ := ih hnodup hmodules
      refine ⟨c', ?_, h'⟩
      rw [List.map_cons, defineModules, hd]
      exact hdefine

/-- Imports given to a module that is not there change nothing. -/
theorem map_bare_of_notMem {modules : List (String × List String)} {name : String}
    (h : name ∉ modules.map Prod.fst) (imports : List String) :
    (bare modules).map (fun m => if m.name = name then { m with imports } else m) = bare modules := by
  rw [bare, List.map_map]
  apply List.map_congr_left
  intro m hm
  exact if_neg fun heq => h (List.mem_map.2 ⟨m, hm, heq⟩)

/-- Imports given to the one module that has a name. -/
theorem map_bare_of_mem {before rest : List (String × List String)} {m : String × List String}
    (hbefore : m.1 ∉ before.map Prod.fst) (hrest : m.1 ∉ rest.map Prod.fst) :
    (bare (before ++ (m.1, []) :: rest)).map
        (fun m' => if m'.name = m.1 then { m' with imports := m.2 } else m') =
      bare (before ++ [m] ++ rest) := by
  rw [← List.singleton_append, ← List.append_assoc, bare_append, bare_append, bare_append,
    bare_append, List.map_append, List.map_append, map_bare_of_notMem hbefore,
    map_bare_of_notMem hrest]
  simp [bare, Module.new]

/-- Imports for modules that are there. -/
theorem defineModules_imports {before rest : List (String × List String)}
    (hnodup : ((before ++ rest).map Prod.fst).Nodup)
    (himports : ∀ m ∈ rest, ∀ i ∈ m.2, i ∈ (before ++ rest).map Prod.fst)
    (hc : c.modules = bare (before ++ rest.map fun m => (m.1, []))) :
    ∃ c', defineModules rest c = .ok c' ∧ c'.modules = bare (before ++ rest) := by
  induction rest generalizing before c with
  | nil => exact ⟨c, rfl, hc⟩
  | cons m rest ih =>
    have hassoc : before ++ m :: rest = before ++ [m] ++ rest := by simp
    have hnames : c.moduleNames = (before ++ m :: rest).map Prod.fst := by
      rw [moduleNames_of_bare hc]
      simp [List.map_append]
    have hsome : ∀ i ∈ m.2, (c.module? i).isSome := fun i hi => by
      rw [Catalog.isSome_module?_iff, hnames]
      exact himports m List.mem_cons_self i hi
    obtain ⟨c₁, hd⟩ := Catalog.exists_defineModule hsome m.1
    obtain ⟨_, ⟨_, hc₁⟩ | ⟨hnone, _⟩⟩ := Catalog.defineModule_eq_ok hd
    · have hother : m.1 ∉ before.map Prod.fst ∧ m.1 ∉ rest.map Prod.fst := by
        rw [List.map_append, List.map_cons, List.nodup_append] at hnodup
        refine ⟨fun hmem => hnodup.2.2 m.1 hmem m.1 List.mem_cons_self rfl, ?_⟩
        exact (List.nodup_cons.1 hnodup.2.1).1
      have hrest : m.1 ∉ (rest.map fun m => (m.1, ([] : List String))).map Prod.fst := by
        rw [List.map_map]
        exact hother.2
      have hmodules : c₁.modules = bare (before ++ [m] ++ rest.map fun m => (m.1, [])) := by
        rw [List.map_cons] at hc
        rw [hc₁, ← map_bare_of_mem hother.1 hrest, ← hc]
        rfl
      rw [hassoc] at hnodup himports ⊢
      obtain ⟨c', hdefine, h'⟩ := ih hnodup
        (fun m' hm' => himports m' (List.mem_cons_of_mem _ hm')) hmodules
      refine ⟨c', ?_, h'⟩
      rw [defineModules, hd]
      exact hdefine
    · rw [Catalog.module?_eq_none_iff, hnames] at hnone
      exact absurd (List.mem_map.2 ⟨m, by simp, rfl⟩) hnone

/-- The modules of a valid catalog can be defined again. -/
theorem catalogOf_records (h : c.Valid) :
    ∃ c₀, catalogOf c.records = .ok c₀ ∧ c₀.Filled c.records [] := by
  have hnodup : (c.records.map Prod.fst).Nodup := by
    rw [Catalog.map_fst_records]
    exact h.nodup_modules
  obtain ⟨names, hnames⟩ : ∃ names, c.records.map Prod.fst = Catalog.mainModule :: names := by
    have hfirst := h.first
    rw [← Catalog.map_fst_records] at hfirst
    exact List.head?_eq_some_iff.1 hfirst
  have hbare : c.records.map (fun m => (m.1, ([] : List String))) =
      (Catalog.mainModule :: names).map (·, []) := by
    rw [← hnames, List.map_map]
    rfl
  have hmain : Catalog.initial.defineModule Catalog.mainModule [] = .ok Catalog.initial := rfl
  have hnodup' : ([Catalog.mainModule] ++ names).Nodup := by
    rw [List.singleton_append, ← hnames]
    exact hnodup
  obtain ⟨c₁, hd₁, hc₁⟩ := defineModules_new (c := .initial) hnodup' rfl
  have hc₁' : c₁.modules = bare ([] ++ c.records.map fun m => (m.1, [])) := by
    rw [hc₁, List.nil_append, hbare, List.singleton_append]
  obtain ⟨c₂, hd₂, hc₂⟩ := defineModules_imports hnodup
    (fun m hm i hi => by
      obtain ⟨m', hm', rfl⟩ := List.mem_map.1 hm
      rw [List.nil_append, Catalog.map_fst_records]
      exact h.imports m' hm' i hi) hc₁'
  have hof : catalogOf c.records = .ok c₂ := by
    unfold catalogOf
    rw [hbare, List.map_cons, defineModules, hmain]
    dsimp only
    rw [hd₁]
    exact hd₂
  refine ⟨c₂, hof, ?_, (sound_catalogOf hof).valid⟩
  rw [hc₂, List.nil_append, bare, List.map_map]
  rfl

end Modules

section Tables
variable {names : List String} {t : Installed} {ts us : List Installed} {bytes : List UInt8}

lemma tablesBytes_cons_eq_ok (h : tablesBytes names (t :: ts) = .ok bytes) :
    ∃ ordinal rest, names[ordinal]? = some t.table.module ∧ tablesBytes names ts = .ok rest ∧
      bytes = tableBytes ordinal t.table ++ rest := by
  rw [tablesBytes] at h
  cases ho : names.idxOf? t.table.module with
  | none =>
    rw [ho] at h
    cases h
  | some ordinal =>
    rw [ho] at h
    dsimp only at h
    cases hts : tablesBytes names ts with
    | error e =>
      rw [hts] at h
      cases h
    | ok rest =>
      rw [hts] at h
      cases h
      refine ⟨ordinal, rest, ?_, rfl, rfl⟩
      obtain ⟨hlt, hget, _⟩ := List.findIdx?_eq_some_iff_getElem.1 ho
      rw [List.getElem?_eq_getElem hlt, beq_iff_eq.1 hget]

/-- Tables of the given modules can be written. -/
theorem exists_tablesBytes (h : ∀ t ∈ ts, t.table.module ∈ names) :
    ∃ bytes, tablesBytes names ts = .ok bytes := by
  induction ts with
  | nil => exact ⟨[], rfl⟩
  | cons t ts ih =>
    obtain ⟨ordinal, ho⟩ := Option.isSome_iff_exists.1
      (List.isSome_idxOf?.2 (h t List.mem_cons_self))
    obtain ⟨rest, hts⟩ := ih fun u hu => h u (List.mem_cons_of_mem _ hu)
    refine ⟨tableBytes ordinal t.table ++ rest, ?_⟩
    rw [tablesBytes, ho]
    dsimp only
    rw [hts]
    rfl

/-- Serial numbers are not written. -/
theorem tablesBytes_congr (h : ts.map Installed.table = us.map Installed.table) :
    tablesBytes names ts = tablesBytes names us := by
  induction ts generalizing us with
  | nil =>
    rw [List.map_nil, eq_comm, List.map_eq_nil_iff] at h
    rw [h]
  | cons t ts ih =>
    cases us with
    | nil => cases h
    | cons u us =>
      obtain ⟨htable, hrest⟩ := List.cons.inj h
      rw [tablesBytes, tablesBytes, htable, ih hrest]

lemma mul_le_length_tablesBytes (h : tablesBytes names ts = .ok bytes) :
    ts.length * 4 ≤ bytes.length := by
  induction ts generalizing bytes with
  | nil => simp
  | cons t ts ih =>
    obtain ⟨ordinal, rest, _, hrest, rfl⟩ := tablesBytes_cons_eq_ok h
    have htable := le_length_tableBytes ordinal t.table
    have hle := ih hrest
    rw [List.length_cons, List.length_append, Nat.succ_mul]
    omega

/-- Sized tables are read and installed one after another. -/
theorem reads_tables (hnames : names.length < 0x100000000) (hsized : ∀ t ∈ ts, t.table.Sized)
    (h : tablesBytes names ts = .ok bytes) (hlen : bytes.length < 0x100000000) {c c' : Catalog}
    (hc : Catalog.installAll (ts.map Installed.table) c = .ok c') :
    (Decoder.tables names ts.length c).Reads bytes c' := by
  induction ts generalizing bytes c with
  | nil =>
    cases h
    cases hc
    exact .pure _
  | cons t ts ih =>
    obtain ⟨ordinal, rest, howner, hrest, rfl⟩ := tablesBytes_cons_eq_ok h
    rw [List.length_append] at hlen
    have hordinal : ordinal < names.length := (List.getElem?_eq_some_iff.1 howner).1
    rw [List.map_cons, Catalog.installAll] at hc
    cases hi : c.install t.table with
    | error e =>
      rw [hi] at hc
      cases hc
    | ok r =>
      rw [hi] at hc
      have htable := Decoder.reads_table howner (by omega) (hsized t List.mem_cons_self) (by omega)
      refine htable.bind ?_
      dsimp only
      rw [Table.buildWith_self]
      refine Decoder.Reads.nil_bind (.pure t.table) ?_
      rw [hi]
      refine Decoder.Reads.nil_bind (.pure r) ?_
      exact ih (fun u hu => hsized u (List.mem_cons_of_mem _ hu)) hrest (by omega) hc

end Tables

section Catalogs
variable {c c' : Catalog} {raw : List UInt8}

lemma moduleBytes_bare (c : Catalog) :
    c.modules.flatMap moduleBytes = (bare c.records).flatMap moduleBytes := by
  rw [bare, Catalog.records, List.map_map, List.flatMap_map]
  rfl

/-- Every valid catalog has a payload. -/
theorem exists_encode (h : c.Valid) : ∃ raw, encode c = .ok raw := by
  have hmodule : ∀ t ∈ c.tables, t.table.module ∈ c.moduleNames := by
    intro t ht
    obtain ⟨m, hm, name, hname⟩ := (Catalog.mem_tables_iff h).1 ht
    rw [((h.modules m hm).stored hname).module_eq]
    exact List.mem_map.2 ⟨m, hm, rfl⟩
  obtain ⟨bytes, hbytes⟩ := exists_tablesBytes hmodule
  have hbytes' : tablesBytes (c.modules.map Module.name) c.tables = .ok bytes := hbytes
  unfold encode
  rw [hbytes']
  exact ⟨_, rfl⟩

/-- Catalogs of the same contents have the same payload. -/
theorem encode_congr (h : c'.contents = c.contents) : encode c' = encode c := by
  have hmodules : c'.modules.map Module.contents = c.modules.map Module.contents :=
    congrArg Catalog.Contents.modules h
  have hcurrent : c'.current = c.current := congrArg Catalog.Contents.current h
  have hlength := congrArg List.length hmodules
  have hrecords := congrArg (List.map fun m : Module.Contents => (m.name, m.imports)) hmodules
  have hnames := congrArg (List.map Module.Contents.name) hmodules
  have htables := congrArg (List.flatMap Module.Contents.tables) hmodules
  rw [List.length_map, List.length_map] at hlength
  rw [List.map_map, List.map_map] at hrecords hnames
  have hrecords' : c'.records = c.records := hrecords
  have hnames' : c'.modules.map Module.name = c.modules.map Module.name := hnames
  have htables' : c'.tables.map Installed.table = c.tables.map Installed.table := by
    rw [List.flatMap_map, List.flatMap_map] at htables
    rw [Catalog.map_table_tables, Catalog.map_table_tables]
    exact htables
  have hcount := congrArg List.length htables'
  rw [List.length_map, List.length_map] at hcount
  unfold encode
  rw [hnames', tablesBytes_congr htables', hcurrent, hlength, moduleBytes_bare, hrecords',
    ← moduleBytes_bare, hcount]

/-- The bytes of a catalog are read by defining its modules and installing its tables. -/
theorem run_catalog (h : c.Valid) {bytes : List UInt8}
    (hbytes : tablesBytes c.moduleNames c.tables = .ok bytes)
    (hlen : (textBytes c.current).length + (4 + ((c.modules.flatMap moduleBytes).length +
      (4 + bytes.length))) < 0x100000000) {c₀ c₁ : Catalog} (hof : catalogOf c.records = .ok c₀)
    (hall : Catalog.installAll (c.tables.map Installed.table) c₀ = .ok c₁)
    (hset : c₁.setCurrent c.current = .ok c') :
    catalog (textBytes c.current ++ (word c.modules.length ++ (c.modules.flatMap moduleBytes ++
      (word c.tables.length ++ bytes)))) = .ok (c', []) := by
  have hmodules := mul_le_length_flatMap moduleBytes le_length_moduleBytes c.modules
  have htables := mul_le_length_tablesBytes hbytes
  have hmodulesRead : (Decoder.times Decoder.module c.modules.length).Reads
      (c.modules.flatMap moduleBytes) c.records := Decoder.reads_times fun m hm => by
    have hm' := length_le_flatMap moduleBytes hm
    exact Decoder.reads_module (by omega)
  have hcount : c.moduleNames.length < 0x100000000 := by
    rw [Catalog.moduleNames, List.length_map]
    omega
  have htablesRead := reads_tables hcount (fun _ => h.sized) hbytes (by omega) hall []
  rw [List.append_nil] at htablesRead
  have hle : c.modules.length * 4 ≤
      (c.modules.flatMap moduleBytes ++ (word c.tables.length ++ bytes)).length := by
    rw [List.length_append]
    omega
  unfold catalog
  rw [Decoder.run_bind_of_ok (Decoder.reads_text (by omega) _),
    Decoder.run_bind_of_ok (Decoder.run_count (by omega) hle),
    Decoder.run_bind_of_ok (hmodulesRead _), hof, Decoder.run_bind_of_ok (Decoder.run_ofExcept _ _),
    Decoder.run_bind_of_ok (Decoder.run_count (by omega) htables), Catalog.map_fst_records,
    Decoder.run_bind_of_ok htablesRead, Decoder.run_bind_of_ok (Decoder.run_rest _),
    if_neg fun hne => hne rfl, hset, Decoder.run_ofExcept]

/-- The payload of a valid catalog is decoded to a catalog of the same contents. -/
theorem decode_encode (h : c.Valid) (hraw : encode c = .ok raw) (hlen : raw.length < 0x100000000) :
    ∃ c', decode raw = .ok c' ∧ c'.contents = c.contents := by
  unfold encode at hraw
  cases hbytes : tablesBytes (c.modules.map Module.name) c.tables with
  | error e =>
    rw [hbytes] at hraw
    cases hraw
  | ok bytes =>
    rw [hbytes] at hraw
    cases hraw
    simp only [List.append_assoc, List.length_append, length_word] at hlen ⊢
    obtain ⟨c₀, hof, hfilled⟩ := catalogOf_records h
    obtain ⟨c₁, hall, hvalid, hcontents⟩ := h.refill hfilled
    have hnames : c₁.moduleNames = c.moduleNames := by
      have hnames := congrArg (List.map Module.Contents.name) hcontents
      rw [List.map_map, List.map_map] at hnames
      exact hnames
    have hset : c₁.setCurrent c.current = .ok { c₁ with current := c.current } := by
      rw [Catalog.setCurrent, if_pos]
      rw [Catalog.isSome_module?_iff, hnames]
      exact h.current
    refine ⟨{ c₁ with current := c.current }, ?_, ?_⟩
    · rw [decode, run_catalog h hbytes (by omega) hof hall hset]
      rfl
    · exact congrArg (Catalog.Contents.mk c.current) hcontents

end Catalogs

end KeyedTables.Payload
