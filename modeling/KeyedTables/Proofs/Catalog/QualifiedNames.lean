import KeyedTables.Proofs.Evaluation.Finding
import KeyedTables.Proofs.Session.Catalog
import KeyedTables.Proofs.Text.Split

/-!
# Qualified names

A qualified name joins module and name by two colons and is divided again at the first two. It means
its table exactly if the two colons in the middle are the first. The reader accepts modules of which
this is not true; their tables are listed, but their qualified names mean another table or none, and
queries do not find them.
-/
namespace KeyedTables

namespace Catalog
variable {c : Catalog} {owner name : String} {t : Installed}

/-- What is joined from a module and a name means the table in this slot, if the name of the module
may be a prefix. -/
theorem find_join (howner : Text.Prefixes owner) (hm : (c.module? owner).isSome) :
    c.find (owner ++ "::" ++ name) =
      match c.tableAt? owner name with
      | some t => .ok t
      | none => .error (.tableNotFound (owner ++ "::" ++ name)) := by
  obtain ⟨m, hm⟩ := Option.isSome_iff_exists.1 hm
  have hsplit := (@Text.splitQualified?_join_iff owner name).2 howner
  rw [tableAt?_of_module? hm]
  cases ht : m.table? name with
  | none => simp [find, hsplit, hm, ht]
  | some t => simp [find, hsplit, hm, ht]

lemma Holds.find_qualifiedName (h : c.Holds t) (howner : Text.Prefixes t.table.module) :
    c.find t.table.qualifiedName = .ok t := by
  have hfind := @find_join c _ t.table.name howner (isSome_module?_of_tableAt? h)
  rw [h] at hfind
  exact hfind

/-- A qualified name that means its table is divided where it was joined. -/
theorem Valid.prefixes_of_find (h : c.Valid) (hf : c.find t.table.qualifiedName = .ok t) :
    Text.Prefixes t.table.module := by
  obtain ⟨owner, name, hsplit, _⟩ := Text.exists_splitQualified?_join t.table.module t.table.name
  have hstored := h.storedAt ((find_eq_ok_iff hsplit).1 hf)
  rw [← hstored.module_eq, ← hstored.name_eq] at hsplit
  exact Text.splitQualified?_join_iff.1 hsplit

lemma Valid.find_qualifiedName_iff (h : c.Valid) (ht : c.Holds t) :
    c.find t.table.qualifiedName = .ok t ↔ Text.Prefixes t.table.module :=
  ⟨h.prefixes_of_find, ht.find_qualifiedName⟩

end Catalog

/-- Throughout every session, and at every moment of an evaluation, the qualified name of a table
means this table exactly if the name of its module may stand in front of two colons. Tables of such
modules have different qualified names, and a query whose table is known finds it while it is
installed; queries over tables of all other modules do not find them. -/
theorem qualified_name_means_table_iff (config : Config) (steps : List Step) :
    let env := (Session.run config steps).env
    (∀ t ∈ env.catalog.tables,
      env.catalog.find t.table.qualifiedName = .ok t ↔ Text.Prefixes t.table.module) ∧
    (∀ t ∈ env.catalog.tables, ∀ u ∈ env.catalog.tables, Text.Prefixes t.table.module →
      Text.Prefixes u.table.module → t.table.qualifiedName = u.table.qualifiedName → t = u) ∧
    ∀ e : Expr, ∀ s ∈ e.eval.trace env, ∀ t ∈ s.catalog.tables, ∀ op,
      (Expr.evalTarget op (.known t)).run s =
        if Text.Prefixes t.table.module then .ok t s
        else .error (.tableNotFound t.table.qualifiedName) s := by
  intro env
  have hsound := Session.sound_run config steps
  have hvalid : env.catalog.Valid := hsound.valid
  have hfind : ∀ t ∈ env.catalog.tables,
      env.catalog.find t.table.qualifiedName = .ok t ↔ Text.Prefixes t.table.module :=
    fun t ht => hvalid.find_qualifiedName_iff (hvalid.mem_tables_iff_holds.1 ht)
  refine ⟨hfind, fun t ht u hu htp hup hsame => ?_, fun e s hs t ht op => ?_⟩
  · have hboth := (hfind t ht).2 htp
    rw [hsame, (hfind u hu).2 hup] at hboth
    cases hboth
    rfl
  · have hsound := (KeepsSound.eval e env).moments s hs _ hsound
    have hiff := hsound.valid.find_qualifiedName_iff (hsound.valid.mem_tables_iff_holds.1 ht)
    rw [Expr.evalTarget]
    split
    · rename_i hprefixes
      exact Query.run_findKnown_of_find (hiff.2 hprefixes)
    · rename_i hcolons
      exact Query.run_findKnown_of_ne hsound (List.mem_append_right _ ht) (mt hiff.1 hcolons)

/-- A table of a module with two colons in its name is listed, but its qualified name means a table
of a module that does not exist, and a query over it does not find it. -/
theorem qualified_name_of_colons_means_nothing :
    let env := (Session.run .default [.load "(defmodule A::B) (deftable t (k) (1))"]).env
    ∃ t ∈ env.catalog.tables, t.table.qualifiedName = "A::B::t" ∧
      env.catalog.find t.table.qualifiedName ≠ .ok t ∧
        (Expr.query .rowExists "r" (.known t) none (.const (.boolean true)) none).eval.run env =
          .error (.tableNotFound "A::B::t") env := by
  intro env
  have hlist : env.catalog.tables.map (fun t => (t.table.module, t.table.qualifiedName)) =
      [("A::B", "A::B::t")] := by
    decide +kernel
  obtain ⟨t, htables, hnames⟩ := List.map_eq_singleton_iff.1 hlist
  obtain ⟨hmodule, hname⟩ := Prod.mk.inj hnames
  have hsound := Session.sound_run .default [.load "(defmodule A::B) (deftable t (k) (1))"]
  have ht : t ∈ env.catalog.tables := by
    rw [htables]
    exact List.mem_singleton.2 rfl
  have hne : env.catalog.find t.table.qualifiedName ≠ .ok t := by
    intro hfind
    have hprefixes := hsound.valid.prefixes_of_find hfind
    rw [hmodule] at hprefixes
    exact absurd hprefixes (by decide)
  refine ⟨t, ht, hname, hne, ?_⟩
  have hmissing := Query.run_findKnown_of_ne hsound (List.mem_append_right _ ht) hne
  rw [hname] at hmissing
  rw [Expr.eval, Expr.evalTarget, Query.run, Action.run_bind_of_error hmissing]

end KeyedTables
