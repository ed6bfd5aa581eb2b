import KeyedTables.Proofs.Catalog.Serials

/-!
# The contents of a catalog

What there is to tell of a catalog when serial numbers and pins are left out: the current module,
and of each module its name, its imports and its tables in order. The contents of a valid catalog
are obtained again by defining its modules and installing its tables one after another.
-/
namespace KeyedTables

structure Module.Contents where
  name : String
  imports : List String
  tables : List Table
  deriving DecidableEq

def Module.contents (m : Module) : Contents :=
  ⟨m.name, m.imports, m.listing.map Installed.table⟩

def Module.Contents.add (m : Contents) (t : Table) : Contents :=
  if m.name = t.module then { m with tables := m.tables ++ [t] } else m

structure Catalog.Contents where
  current : String
  modules : List Module.Contents
  deriving DecidableEq

def Catalog.contents (c : Catalog) : Contents := ⟨c.current, c.modules.map Module.contents⟩

namespace Module
variable {m : Module} {t : Installed}

/-- A table of a new name comes last. -/
theorem contents_put (h : m.Valid) (hnew : m.table? t.table.name = none) :
    (m.put t).contents = { m.contents with tables := m.contents.tables ++ [t.table] } := by
  rw [contents, listing_put_of_none h hnew, List.map_append]
  rfl

lemma mem_contents_of_table? (h : m.Valid) {name : String} (ht : m.table? name = some t) :
    t.table ∈ m.contents.tables :=
  List.mem_map.2 ⟨t, (mem_listing_iff h).2 ⟨name, ht⟩, rfl⟩

/-- The tables of a module have different names, and the module's own. -/
theorem Valid.contents (h : m.Valid) :
    (m.contents.tables.map fun t => t.name).Nodup ∧
      ∀ t ∈ m.contents.tables, t.StoredAt m.name t.name := by
  have hstored : ∀ t ∈ m.listing, ∃ name ∈ m.order, m.table? name = some t := fun t ht =>
    List.mem_filterMap.1 ht
  constructor
  · have hnames : ∀ order : List String, (∀ name ∈ order, (m.table? name).isSome) →
        ((order.filterMap m.table?).map fun t => t.table.name) = order := by
      intro order hsome
      induction order with
      | nil => rfl
      | cons name order ih =>
        obtain ⟨t, ht⟩ := Option.isSome_iff_exists.1 (hsome name List.mem_cons_self)
        rw [List.filterMap_cons_some ht, List.map_cons, (h.stored ht).name_eq,
          ih fun other ho => hsome other (List.mem_cons_of_mem _ ho)]
    have hmap : m.contents.tables.map (fun t => t.name) = m.order := by
      rw [Module.contents, List.map_map]
      refine hnames m.order fun name hname => ?_
      rw [isSome_table?_iff, ← h.mem_order_iff]
      exact hname
    rw [hmap]
    exact h.nodup_order
  · intro t ht
    obtain ⟨u, hu, rfl⟩ := List.mem_map.1 ht
    obtain ⟨name, _, hname⟩ := hstored u hu
    have hst := h.stored hname
    exact ⟨hst.module_eq, rfl, hst.sized⟩

end Module

namespace Catalog
variable {c : Catalog} {modules : List (String × List String)} {t : Table} {ts us : List Table}

def installAll : List Table → Catalog → Except Error Catalog
  | [], c => .ok c
  | t :: ts, c =>
    match c.install t with
    | .error e => .error e
    | .ok (c, _) => installAll ts c

/-- A valid catalog with the given modules, each of which has those of the given tables that belong
to it. -/
structure Filled (c : Catalog) (modules : List (String × List String)) (ts : List Table) : Prop where
  contents_eq : c.modules.map Module.contents =
    modules.map fun m => ⟨m.1, m.2, ts.filter (·.module = m.1)⟩
  valid : c.Valid

lemma Filled.moduleNames_eq (h : c.Filled modules ts) : c.moduleNames = modules.map Prod.fst := by
  have hnames := congrArg (List.map Module.Contents.name) h.contents_eq
  rw [List.map_map, List.map_map] at hnames
  exact hnames

lemma map_add {ms : List Module.Contents}
    (h : ms = modules.map fun m => ⟨m.1, m.2, ts.filter (·.module = m.1)⟩) :
    ms.map (·.add t) = modules.map fun m => ⟨m.1, m.2, (ts ++ [t]).filter (·.module = m.1)⟩ := by
  rw [h, List.map_map]
  apply List.map_congr_left
  intro m _
  rw [Function.comp_apply, List.filter_append, Module.Contents.add]
  by_cases hm : m.1 = t.module
  · simp [hm]
  · simp [hm, Ne.symm hm]

/-- A module has no table but those of its own among the given ones. -/
theorem Filled.mem_of_table? (h : c.Filled modules ts) {m : Module} (hm : m ∈ c.modules)
    {name : String} {u : Installed} (hu : m.table? name = some u) :
    u.table ∈ ts ∧ u.table.module = m.name ∧ u.table.name = name := by
  have hvalid := h.valid.modules m hm
  have hstored := hvalid.stored hu
  refine ⟨?_, hstored.module_eq, hstored.name_eq⟩
  have hmem : m.contents ∈ c.modules.map Module.contents := List.mem_map.2 ⟨m, hm, rfl⟩
  rw [h.contents_eq] at hmem
  obtain ⟨r, _, hr⟩ := List.mem_map.1 hmem
  have ht := Module.mem_contents_of_table? hvalid hu
  rw [← hr] at ht
  exact (List.mem_filter.1 ht).1

/-- One more table, of another place than those before, goes where it belongs. -/
theorem Filled.install (h : c.Filled modules ts) (hsized : t.Sized)
    (hmodule : t.module ∈ modules.map Prod.fst)
    (hnew : ∀ u ∈ ts, u.module = t.module → u.name ≠ t.name) :
    ∃ c' new, c.install t = .ok (c', new) ∧ c'.Filled modules (ts ++ [t]) := by
  have hnone : ∀ m ∈ c.modules, m.name = t.module → m.table? t.name = none := by
    intro m hm hname
    cases hu : m.table? t.name with
    | none => rfl
    | some u =>
      obtain ⟨hmem, humodule, huname⟩ := h.mem_of_table? hm hu
      exact absurd huname (hnew u.table hmem (humodule.trans hname))
  rw [← h.moduleNames_eq, ← isSome_module?_iff] at hmodule
  obtain ⟨m, hm⟩ := Option.isSome_iff_exists.1 hmodule
  have hmname := name_of_module? hm
  obtain ⟨c', new, hi⟩ := exists_install hm (hnone m (mem_of_module? hm) hmname)
  refine ⟨c', new, hi, ?_, h.valid.install hsized hi⟩
  obtain ⟨rfl, m', hm', _, rfl⟩ := install_eq_ok hi
  rw [hm] at hm'
  cases hm'
  refine Eq.trans ?_ (map_add h.contents_eq)
  change List.map _ (List.map _ _) = _
  rw [List.map_map, List.map_map]
  apply List.map_congr_left
  intro m' hm'
  rw [Function.comp_apply, Function.comp_apply, hmname, Module.Contents.add]
  by_cases hname : m'.name = t.module
  · have hput := Module.contents_put (t := ⟨c.nextSerial, t⟩) (h.valid.modules m' hm')
      (hnone m' hm' hname)
    rw [if_pos hname, hput]
    exact (if_pos hname).symm
  · rw [if_neg hname]
    exact (if_neg hname).symm

lemma Filled.installAll (h : c.Filled modules ts) (hsized : ∀ t ∈ us, t.Sized)
    (hmodule : ∀ t ∈ us, t.module ∈ modules.map Prod.fst)
    (hdistinct : (ts ++ us).Pairwise fun t u => t.module = u.module → t.name ≠ u.name) :
    ∃ c', installAll us c = .ok c' ∧ c'.Filled modules (ts ++ us) := by
  induction us generalizing ts c with
  | nil =>
    rw [List.append_nil]
    exact ⟨c, rfl, h⟩
  | cons t us ih =>
    obtain ⟨c₁, new, hi, h₁⟩ := h.install (hsized t List.mem_cons_self)
      (hmodule t List.mem_cons_self)
      fun u hu => (List.pairwise_append.1 hdistinct).2.2 u hu t List.mem_cons_self
    have hassoc : ts ++ t :: us = ts ++ [t] ++ us := by simp
    rw [hassoc] at hdistinct ⊢
    obtain ⟨c', hall, h'⟩ := ih h₁ (fun u hu => hsized u (List.mem_cons_of_mem _ hu))
      (fun u hu => hmodule u (List.mem_cons_of_mem _ hu)) hdistinct
    refine ⟨c', ?_, h'⟩
    rw [Catalog.installAll, hi]
    exact hall

def records (c : Catalog) : List (String × List String) := c.modules.map fun m => (m.name, m.imports)

theorem map_fst_records (c : Catalog) : c.records.map Prod.fst = c.moduleNames := by
  rw [records, List.map_map]
  rfl

theorem records_remove {c' : Catalog} {name : String} (h : c.remove name = .ok c') :
    c'.records = c.records := by
  obtain ⟨t, m, _, _, _, rfl⟩ := remove_eq_ok h
  rw [records, updateModule, List.map_map, records]
  apply List.map_congr_left
  intro m' _
  rw [Function.comp_apply]
  split
  · rfl
  · rfl

theorem map_table_tables (c : Catalog) :
    c.tables.map Installed.table = c.modules.flatMap fun m => m.contents.tables := by
  rw [tables, List.map_flatMap]
  rfl

theorem Valid.pairwise_tables (h : c.Valid) :
    (c.tables.map Installed.table).Pairwise fun t u => t.module = u.module → t.name ≠ u.name := by
  rw [map_table_tables, List.pairwise_flatMap]
  constructor
  · intro m hm
    refine List.Pairwise.imp ?_ (List.pairwise_map.1 (h.modules m hm).contents.1)
    intro t u hne _
    exact hne
  · refine List.Pairwise.imp_of_mem ?_ (List.pairwise_map.1 h.nodup_modules)
    intro m m' hm hm' hne t ht u hu hmodule
    rw [((h.modules m hm).contents.2 t ht).module_eq,
      ((h.modules m' hm').contents.2 u hu).module_eq] at hmodule
    exact absurd hmodule hne

/-- Of the tables of all modules, those that belong to one are its tables. -/
theorem filter_tables_of_mem {ms : List Module} (hnodup : (ms.map Module.name).Nodup)
    (hvalid : ∀ m ∈ ms, m.Valid) {m : Module} (hm : m ∈ ms) :
    ((ms.flatMap fun m => m.contents.tables).filter fun t => t.module = m.name) =
      m.contents.tables := by
  have hown : ∀ m' ∈ ms, ∀ t ∈ m'.contents.tables, t.module = m'.name := fun m' hm' t ht =>
    ((hvalid m' hm').contents.2 t ht).module_eq
  induction ms with
  | nil => cases hm
  | cons m' ms ih =>
    obtain ⟨hnotMem, hnodup⟩ := List.nodup_cons.1 hnodup
    have hrest : ∀ m'' ∈ ms, m''.name ≠ m'.name := fun m'' hm'' heq =>
      hnotMem (List.mem_map.2 ⟨m'', hm'', heq⟩)
    rw [List.flatMap_cons, List.filter_append]
    cases hm with
    | head =>
      have hself : (m.contents.tables.filter fun t => t.module = m.name) = m.contents.tables :=
        List.filter_eq_self.2 fun t ht => by
          rw [hown m List.mem_cons_self t ht]
          exact decide_eq_true rfl
      have hnone : ((ms.flatMap fun m => m.contents.tables).filter fun t => t.module = m.name) =
          [] := List.filter_eq_nil_iff.2 fun t ht => by
        obtain ⟨m'', hm'', ht⟩ := List.mem_flatMap.1 ht
        rw [hown m'' (List.mem_cons_of_mem _ hm'') t ht]
        simpa using hrest m'' hm''
      rw [hself, hnone, List.append_nil]
    | tail _ hm =>
      have hnone : (m'.contents.tables.filter fun t => t.module = m.name) = [] :=
        List.filter_eq_nil_iff.2 fun t ht => by
          rw [hown m' List.mem_cons_self t ht]
          simpa using Ne.symm (hrest m hm)
      rw [hnone, List.nil_append]
      exact ih hnodup (fun m'' hm'' => hvalid m'' (List.mem_cons_of_mem _ hm'')) hm
        fun m'' hm'' => hown m'' (List.mem_cons_of_mem _ hm'')

/-- The modules of a catalog without tables that the tables of another one are installed into have
the contents of the other one's. -/
theorem Valid.refill {c₀ : Catalog} (h : c.Valid) (h₀ : c₀.Filled c.records []) :
    ∃ c', installAll (c.tables.map Installed.table) c₀ = .ok c' ∧ c'.Valid ∧
      c'.modules.map Module.contents = c.modules.map Module.contents := by
  have hstored : ∀ t ∈ c.tables.map Installed.table,
      t.module ∈ c.records.map Prod.fst ∧ t.Sized := by
    intro t ht
    rw [map_table_tables] at ht
    obtain ⟨m, hm, ht⟩ := List.mem_flatMap.1 ht
    have hst := (h.modules m hm).contents.2 t ht
    rw [hst.module_eq, map_fst_records]
    exact ⟨List.mem_map.2 ⟨m, hm, rfl⟩, hst.sized⟩
  obtain ⟨c', hall, hfilled⟩ := h₀.installAll (fun t ht => (hstored t ht).2)
    (fun t ht => (hstored t ht).1) h.pairwise_tables
  refine ⟨c', hall, hfilled.valid, ?_⟩
  rw [hfilled.contents_eq, records, List.map_map]
  apply List.map_congr_left
  intro m hm
  rw [Function.comp_apply, List.nil_append, map_table_tables,
    filter_tables_of_mem h.nodup_modules h.modules hm]
  rfl

/-- New serial numbers do not change the contents. -/
theorem contents_succeeding (c old : Catalog) : (c.succeeding old).contents = c.contents := by
  have hmodule : ∀ m : Module, (m.renumber old.nextSerial).contents = m.contents := by
    intro m
    rw [Module.contents, Module.listing_renumber, List.map_map]
    rfl
  rw [contents, succeeding, List.map_map]
  exact congrArg (Contents.mk c.current) (List.map_congr_left fun m _ => hmodule m)

end Catalog

end KeyedTables
