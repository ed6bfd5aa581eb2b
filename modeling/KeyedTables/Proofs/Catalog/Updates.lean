import KeyedTables.Proofs.Catalog.Contents
import KeyedTables.Proofs.Catalog.Installation
import KeyedTables.Proofs.Catalog.LocalNames
import KeyedTables.Proofs.Session.Catalog

/-!
# Updates of a catalog

When the installation of a table, the removal of one and the definition of a module are refused, and
what they make of a valid catalog otherwise. Each touches one slot at most, and the listing at the
place of this slot; what stands in the other slots, and what qualified names mean by it, is as
before.
-/
namespace KeyedTables

namespace Catalog
variable {c c' : Catalog} {name : String} {t new : Installed} {e : Error}
  {touched : List (String × String)} {imports : List String}

theorem install_eq_error_iff {table : Table} : c.install table = .error e ↔
    (table.module ∉ c.moduleNames ∧ e = .unknownModule table.module) ∨
      ∃ old, c.tableAt? table.module table.name = some old ∧ 0 < c.busy old ∧ e = c.inUse old := by
  rw [← module?_eq_none_iff, install]
  cases hm : c.module? table.module with
  | none => simp [tableAt?, hm, eq_comm]
  | some m =>
    rw [tableAt?_of_module? hm]
    dsimp only
    cases m.table? table.name with
    | none => simp
    | some old =>
      by_cases hbusy : 0 < c.busy old
      · simp [hbusy, eq_comm]
      · simp [hbusy]

lemma Valid.remove_eq_error_iff (h : c.Valid) : c.remove name = .error e ↔
    c.find name = .error e ∨ ∃ t, c.find name = .ok t ∧ 0 < c.busy t ∧ e = c.inUse t := by
  unfold Catalog.remove
  cases hf : c.find name with
  | error e' => simp
  | ok t =>
    obtain ⟨m, hm, _⟩ := tableAt?_eq_some_iff.1 (h.holds_of_find hf)
    by_cases hbusy : 0 < c.busy t
    · simp [hbusy, eq_comm]
    · simp [hbusy, hm]

theorem defineModule_eq_error_iff : c.defineModule name imports = .error e ↔
    ∃ missing, imports.find? (· ∉ c.moduleNames) = some missing ∧ e = .unknownModule missing := by
  have hfind : imports.find? (fun i => (c.module? i).isNone) =
      imports.find? (· ∉ c.moduleNames) := by
    congr 1
    funext i
    rw [← Bool.coe_iff_coe, Option.isNone_iff_eq_none, module?_eq_none_iff, decide_eq_true_iff]
  unfold defineModule
  rw [hfind]
  cases imports.find? (· ∉ c.moduleNames) with
  | some missing => simp [eq_comm]
  | none =>
    dsimp only
    split
    · simp
    · simp

/-- All slots but the given ones are as they were, and so is what qualified names mean by them. -/
structure Spares (c c' : Catalog) (touched : List (String × String)) : Prop where
  slots {owner name : String} : (owner, name) ∉ touched →
    c'.tableAt? owner name = c.tableAt? owner name
  names {name : String} {t : Installed} : Text.colons <:+: name.toList → c.find name = .ok t →
    (t.table.module, t.table.name) ∉ touched → c'.find name = .ok t

/-- What stands in a slot names it, so that names follow the slots. -/
theorem Valid.spares (h : c.Valid) (hslots : ∀ owner name, (owner, name) ∉ touched →
    c'.tableAt? owner name = c.tableAt? owner name) : c.Spares c' touched where
  slots hout := hslots _ _ hout
  names {name t} hname hf hout := by
    cases hsplit : Text.splitQualified? name with
    | none => exact absurd hname (Text.splitQualified?_eq_none_iff.1 hsplit)
    | some r =>
      have hslot := (find_eq_ok_iff hsplit).1 hf
      have hstored := h.storedAt hslot
      rw [hstored.module_eq, hstored.name_eq] at hout
      exact (find_eq_ok_iff hsplit).2 ((hslots _ _ hout).trans hslot)

lemma Gains.records (hg : c.Gains c' new) : c'.records = c.records := by
  obtain ⟨before, m, m', after, hsplit, hsplit', _, hm⟩ := hg.modules
  rw [Catalog.records, Catalog.records, hsplit, hsplit', List.map_append, List.map_cons,
    List.map_append, List.map_cons, hm.name, hm.imports]

lemma Gains.spares (hg : c.Gains c' new) (h : c.Valid) :
    c.Spares c' [(new.table.module, new.table.name)] := by
  refine h.spares fun owner name hout => ?_
  rw [List.mem_singleton, Prod.mk.injEq] at hout
  rw [hg.slots, if_neg hout]

/-- The table is listed in the place of the one that stood in its slot, or else as the last one of
its module. -/
theorem Gains.tables (hg : c.Gains c' new) (h : c.Valid) :
    (∃ old before after, c.tableAt? new.table.module new.table.name = some old ∧
      c.tables = before ++ old :: after ∧ c'.tables = before ++ new :: after) ∨
    c.tableAt? new.table.module new.table.name = none ∧
      ∃ front m back, c.modules = front ++ m :: back ∧ m.name = new.table.module ∧
        c'.tables = (front ++ [m]).flatMap Module.listing ++ new :: back.flatMap Module.listing := by
  obtain ⟨front, m, m', back, hsplit, hsplit', hname, hm⟩ := hg.modules
  have hmem : m ∈ c.modules := by
    rw [hsplit]
    exact List.mem_append_right _ List.mem_cons_self
  have hslot : c.tableAt? new.table.module new.table.name = m.table? new.table.name := by
    rw [← hname, tableAt?_of_module? (h.module?_eq hmem)]
  have htables : c.tables = front.flatMap Module.listing ++ (m.listing ++
      back.flatMap Module.listing) := by
    rw [Catalog.tables, hsplit, List.flatMap_append, List.flatMap_cons]
  have htables' : c'.tables = front.flatMap Module.listing ++ (m'.listing ++
      back.flatMap Module.listing) := by
    rw [Catalog.tables, hsplit', List.flatMap_append, List.flatMap_cons]
  rw [hslot, htables, htables']
  obtain ⟨hnone, hlisting⟩ | ⟨old, before, after, hold, hlisting, hlisting'⟩ := hm.listing
  · refine Or.inr ⟨hnone, front, m, back, hsplit, hname, ?_⟩
    rw [hlisting]
    simp
  · refine Or.inl ⟨old, front.flatMap Module.listing ++ before,
      after ++ back.flatMap Module.listing, hold, ?_, ?_⟩
    · rw [hlisting]
      simp
    · rw [hlisting']
      simp

/-- One table has come into its slot, and into the listing; nothing else has changed. -/
structure Installs (c : Catalog) (table : Table) (c' : Catalog) (new : Installed) : Prop where
  table_eq : new.table = table
  slot : c'.tableAt? table.module table.name = some new
  tables :
    (∃ old before after, c.tableAt? table.module table.name = some old ∧
      c.tables = before ++ old :: after ∧ c'.tables = before ++ new :: after) ∨
    c.tableAt? table.module table.name = none ∧
      ∃ front m back, c.modules = front ++ m :: back ∧ m.name = table.module ∧
        c'.tables = (front ++ [m]).flatMap Module.listing ++ new :: back.flatMap Module.listing
  records : c'.records = c.records
  current : c'.current = c.current
  pins : c'.pins = c.pins
  spares : c.Spares c' [(table.module, table.name)]

lemma Valid.installs (h : c.Valid) {table : Table} (hi : c.install table = .ok (c', new)) :
    c.Installs table c' new := by
  have htable : new.table = table := by rw [(install_eq_ok hi).1]
  have hg := h.gains_install hi
  subst htable
  exact
    { table_eq := rfl
      slot := by rw [hg.slots, if_pos ⟨rfl, rfl⟩]
      tables := hg.tables h
      records := hg.records
      current := hg.current
      pins := pins_install hi
      spares := hg.spares h }

lemma Valid.nodup_tables (h : c.Valid) : c.tables.Nodup := by
  have hpairwise := List.pairwise_map.1 h.pairwise_tables
  refine hpairwise.imp fun hne heq => ?_
  rw [heq] at hne
  exact hne rfl rfl

/-- A table that is taken away from its module leaves the other tables in their order. -/
theorem Valid.tables_drop (h : c.Valid) {m : Module} (hm : c.module? t.table.module = some m)
    (ht : c.Holds t) : (c.updateModule m.name (·.drop t.table.name)).tables = c.tables.erase t := by
  have hold : m.table? t.table.name = some t := by
    rw [← tableAt?_of_module? hm]
    exact ht
  have hmem := mem_of_module? hm
  obtain ⟨front, back, hsplit, hsplit'⟩ := h.modules_updateModule hmem (·.drop t.table.name)
  obtain ⟨before, after, hlisting, hdrop⟩ := Module.listing_drop_of_some (h.modules m hmem) hold
  have htables : c.tables = (front.flatMap Module.listing ++ before) ++
      t :: (after ++ back.flatMap Module.listing) := by
    rw [Catalog.tables, hsplit, List.flatMap_append, List.flatMap_cons, hlisting]
    simp
  -- no table is listed twice, so the one that is erased stands at this very place
  have hbefore : t ∉ front.flatMap Module.listing ++ before := by
    have hnodup := h.nodup_tables
    rw [htables, List.nodup_middle, List.nodup_cons, List.mem_append, not_or] at hnodup
    exact hnodup.1.1
  rw [htables, List.erase_append_right _ hbefore, List.erase_cons_head, Catalog.tables, hsplit',
    List.flatMap_append, List.flatMap_cons, hdrop]
  simp

/-- One table has gone from its slot, and from the listing; nothing else has changed. -/
structure Removes (c : Catalog) (t : Installed) (c' : Catalog) : Prop where
  slot : c'.tableAt? t.table.module t.table.name = none
  mem : t ∈ c.tables
  tables : c'.tables = c.tables.erase t
  records : c'.records = c.records
  current : c'.current = c.current
  pins : c'.pins = c.pins
  spares : c.Spares c' [(t.table.module, t.table.name)]

lemma Valid.removes (h : c.Valid) (hr : c.remove name = .ok c') :
    ∃ t, c.find name = .ok t ∧ c.Removes t c' := by
  obtain ⟨t, m, hf, _, hm, hc'⟩ := remove_eq_ok hr
  have ht := h.holds_of_find hf
  have hslots := tableAt?_updateModule_drop c m.name t.table.name
  rw [← hc', name_of_module? hm] at hslots
  refine ⟨t, hf, ?_, h.mem_tables_iff_holds.2 ht, ?_, records_remove hr, current_remove hr,
    pins_remove hr, h.spares fun owner other hout => ?_⟩
  · rw [hslots, if_pos ⟨rfl, rfl⟩]
  · rw [hc', h.tables_drop hm ht]
  · rw [List.mem_singleton, Prod.mk.injEq] at hout
    rw [hslots, if_neg hout]

/-- Imports apart, the modules are the same ones, or there is one more that has no table. -/
theorem tableAt?_defineModule (hd : c.defineModule name imports = .ok c') (owner other : String) :
    c'.tableAt? owner other = c.tableAt? owner other := by
  obtain ⟨_, ⟨_, rfl⟩ | ⟨hnew, rfl⟩⟩ := defineModule_eq_ok hd
  · rw [tableAt?_updateModule (f := fun m => { m with imports }) fun _ => rfl]
    split
    · rfl
    · rfl
  · have hmodule : module? { c with current := name, modules := c.modules ++ [.new name imports] }
        owner = (c.module? owner).or (if name = owner then some (.new name imports) else none) := by
      rw [module?, List.find?_append, module?]
      congr 1
      by_cases howner : name = owner
      · simp [Module.new, howner]
      · simp [Module.new, howner]
    rw [tableAt?, tableAt?, hmodule]
    cases c.module? owner with
    | some m => rfl
    | none =>
      rw [Option.none_or]
      split
      · rfl
      · rfl

lemma Valid.modules_defineModule (h : c.Valid) (hd : c.defineModule name imports = .ok c') :
    (name ∉ c.moduleNames ∧
      c' = { c with current := name, modules := c.modules ++ [.new name imports] }) ∨
    ∃ front m back, c.modules = front ++ m :: back ∧ m.name = name ∧
      c' = { c with current := name, modules := front ++ { m with imports } :: back } := by
  obtain ⟨_, ⟨hm, rfl⟩ | ⟨hnew, rfl⟩⟩ := defineModule_eq_ok hd
  · obtain ⟨m, hm⟩ := Option.isSome_iff_exists.1 hm
    obtain ⟨front, back, hsplit, hsplit'⟩ :=
      h.modules_updateModule (mem_of_module? hm) fun m => { m with imports }
    have hname := name_of_module? hm
    refine Or.inr ⟨front, m, back, hsplit, hname, ?_⟩
    rw [← hsplit', hname]
    rfl
  · exact Or.inl ⟨module?_eq_none_iff.1 hnew, rfl⟩

/-- A module has been given imports, or been added with them; nothing else has changed but that it
is the current one. -/
structure Defines (c : Catalog) (name : String) (imports : List String) (c' : Catalog) : Prop where
  modules : (name ∉ c.moduleNames ∧
      c' = { c with current := name, modules := c.modules ++ [.new name imports] }) ∨
    ∃ front m back, c.modules = front ++ m :: back ∧ m.name = name ∧
      c' = { c with current := name, modules := front ++ { m with imports } :: back }
  tables : c'.tables = c.tables
  spares : c.Spares c' []

lemma Valid.defines (h : c.Valid) (hd : c.defineModule name imports = .ok c') :
    c.Defines name imports c' where
  modules := h.modules_defineModule hd
  tables := by
    obtain ⟨_, rfl⟩ | ⟨front, m, back, hsplit, _, rfl⟩ := h.modules_defineModule hd
    · rw [Catalog.tables, List.flatMap_append, List.flatMap_singleton, Catalog.tables]
      exact List.append_nil _
    · rw [Catalog.tables, Catalog.tables, hsplit, List.flatMap_append, List.flatMap_cons,
        List.flatMap_append, List.flatMap_cons]
      rfl
  spares := h.spares fun owner other _ => tableAt?_defineModule hd owner other

end Catalog

section Refused
variable {env env' : Environment} {e : Error}

lemma Construct.env_of_install_eq_error {table : Table}
    (h : Construct.install table env = .error e env') : env' = env := by
  unfold Construct.install at h
  split at h
  · cases h
  · cases h
    rfl

lemma Call.env_of_removeTable_eq_error {name : String}
    (h : (Call.removeTable name).run env = .error e env') : env' = env := by
  unfold Call.removeTable at h
  rw [Action.environment_bind, Action.run_read] at h
  split at h
  · cases h
  · cases h
    rfl

lemma Construct.env_of_defineModule_eq_error {items : List Form}
    (h : Construct.defineModule items env = .error e env') : env' = env := by
  unfold Construct.defineModule at h
  split at h
  · cases h
    rfl
  · split at h
    · cases h
      rfl
    · split at h
      · cases h
      · cases h
        rfl

end Refused

/-- In a valid catalog, whatever is pinned, tables are installed and removed and modules are defined
unless the module is unknown, the table not found or busy, or an import unknown. A refusal leaves the
environment as it is. Otherwise one table is put into the listing, or taken from it, or one module
has other imports, and the rest of the catalog is as before. -/
theorem catalog_update_effects {c : Catalog} (h : c.Valid) :
    (∀ table e, c.install table = .error e ↔
      (table.module ∉ c.moduleNames ∧ e = .unknownModule table.module) ∨
        ∃ old, c.tableAt? table.module table.name = some old ∧ 0 < c.busy old ∧ e = c.inUse old) ∧
    (∀ table c' new, c.install table = .ok (c', new) → c.Installs table c' new) ∧
    (∀ name e, c.remove name = .error e ↔
      c.find name = .error e ∨ ∃ t, c.find name = .ok t ∧ 0 < c.busy t ∧ e = c.inUse t) ∧
    (∀ name c', c.remove name = .ok c' → ∃ t, c.find name = .ok t ∧ c.Removes t c') ∧
    (∀ name imports e, c.defineModule name imports = .error e ↔
      ∃ missing, imports.find? (· ∉ c.moduleNames) = some missing ∧ e = .unknownModule missing) ∧
    (∀ name imports c', c.defineModule name imports = .ok c' → c.Defines name imports c') ∧
    ∀ env env' : Environment, ∀ e,
      ((∃ table, Construct.install table env = .error e env') ∨
        (∃ name, (Call.removeTable name).run env = .error e env') ∨
          ∃ items, Construct.defineModule items env = .error e env') → env' = env := by
  refine ⟨fun table e => Catalog.install_eq_error_iff, fun table c' new => h.installs,
    fun name e => h.remove_eq_error_iff, fun name c' => h.removes,
    fun name imports e => Catalog.defineModule_eq_error_iff, fun name imports c' => h.defines,
    fun env env' e hrefused => ?_⟩
  obtain ⟨table, hi⟩ | ⟨name, hr⟩ | ⟨items, hd⟩ := hrefused
  · exact Construct.env_of_install_eq_error hi
  · exact Call.env_of_removeTable_eq_error hr
  · exact Construct.env_of_defineModule_eq_error hd

/-- A table that is found through an import is removed from the module that owns it; the other table
of this module and the qualified name of that one stay. -/
theorem catalog_update_effects_of_imported_table :
    let c := (Session.run .default
      [.load "(deftable t (k) (1)) (deftable u (k) (2)) (defmodule B (import MAIN))"]).env.catalog
    c.Valid ∧ c.current = "B" ∧ ∃ t u c', c.tables = [t, u] ∧ t.table.module = "MAIN" ∧
      c.remove "t" = .ok c' ∧ c'.tables = [u] ∧ c'.current = "B" ∧
        c'.find "MAIN::u" = .ok u := by
  intro c
  have hvalid : c.Valid := (Session.sound_run _ _).valid
  have hlist : c.tables.map (fun t => (t.table.module, t.table.name, c.busy t)) =
      [("MAIN", "t", 0), ("MAIN", "u", 0)] := by
    decide +kernel
  obtain ⟨hB, hnone, himports, hnames⟩ : c.current = "B" ∧ c.tableAt? "B" "t" = none ∧
      c.Imports "B" "MAIN" ∧ c.moduleNames = ["MAIN", "B"] := by
    decide +kernel
  obtain ⟨t, ts, htables, ht, hts⟩ := List.map_eq_cons_iff.1 hlist
  obtain ⟨u, rfl, hu⟩ := List.map_eq_singleton_iff.1 hts
  rw [Prod.mk.injEq, Prod.mk.injEq] at ht hu
  obtain ⟨⟨hmodule, hname, hfree⟩, humodule, huname, _⟩ := And.intro ht hu
  have hholds : ∀ x ∈ [t, u], c.tableAt? x.table.module x.table.name = some x := fun x hx =>
    hvalid.mem_tables_iff_holds.1 (htables ▸ hx)
  have htslot : c.tableAt? "MAIN" "t" = some t := by
    rw [← hmodule, ← hname]
    exact hholds t (by simp)
  have huslot : c.tableAt? "MAIN" "u" = some u := by
    rw [← humodule, ← huname]
    exact hholds u (by simp)
  have hreaches : c.Reaches "MAIN" := ⟨by rw [hB]; decide, hB ▸ .single himports⟩
  have honly : ∀ other, c.Owns "t" other → other = "MAIN" := by
    rintro other ⟨⟨hne, _⟩, hsome⟩
    obtain ⟨v, hv⟩ := Option.isSome_iff_exists.1 hsome
    have hmem := Catalog.isSome_module?_iff.1 (Catalog.isSome_module?_of_tableAt? hv)
    rw [hnames] at hmem
    obtain rfl | rfl := List.mem_pair.1 hmem
    · rfl
    · exact absurd hB.symm hne
  have hfind : c.find "t" = .ok t := by
    rw [Catalog.find, Text.splitQualified?_eq_none_iff.2 (by decide)]
    exact (Catalog.Means.imported (hB ▸ hnone) hreaches htslot honly).findLocal_eq
  have hufind : c.find "MAIN::u" = .ok u := (Catalog.find_eq_ok_iff (by decide +kernel)).2 huslot
  obtain ⟨_, _, hrefused, hremoves, _⟩ := catalog_update_effects hvalid
  cases hr : c.remove "t" with
  | error e =>
    obtain hmissing | ⟨t', hfind', hbusy, _⟩ := (hrefused "t" e).1 hr
    · rw [hfind] at hmissing
      cases hmissing
    · rw [hfind] at hfind'
      cases hfind'
      omega
  | ok c' =>
    obtain ⟨t', hfind', heffect⟩ := hremoves "t" c' hr
    rw [hfind] at hfind'
    cases hfind'
    refine ⟨hvalid, hB, t, u, c', htables, hmodule, rfl, ?_, heffect.current.trans hB, ?_⟩
    · rw [heffect.tables, htables, List.erase_cons_head]
    · refine heffect.spares.names (by decide) hufind ?_
      rw [humodule, huname, hmodule, hname]
      decide

end KeyedTables
