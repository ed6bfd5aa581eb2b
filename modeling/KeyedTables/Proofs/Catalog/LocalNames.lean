import KeyedTables.Proofs.Catalog.Slots
import KeyedTables.Proofs.Text.Split
import KeyedTables.Session
import Mathlib.Data.List.Sort
import Mathlib.Data.String.Basic

/-!
# What a local name means

A name without a module means the current module's own table of this name. If there is none it means
the table of the one module that imports lead to and that has one; none or several such modules are
an error, the latter with the names of these modules in order. So it only matters which modules are
reached, not in which order or how often they are imported.
-/
namespace KeyedTables.Catalog
variable {c c' : Catalog} {name owner : String} {t : Installed} {r : Except Error Installed}

/-- A module that imports lead to has a table of the name. -/
def Owns (c : Catalog) (name owner : String) : Prop :=
  c.Reaches owner ∧ (c.tableAt? owner name).isSome

/-- What a local name means. -/
inductive Means (c : Catalog) (name : String) : Except Error Installed → Prop
  | own {t : Installed} : c.tableAt? c.current name = some t → Means c name (.ok t)
  | imported {owner : String} {t : Installed} : c.tableAt? c.current name = none →
      c.Reaches owner → c.tableAt? owner name = some t →
        (∀ other, c.Owns name other → other = owner) → Means c name (.ok t)
  | missing : c.tableAt? c.current name = none → (∀ owner, ¬ c.Owns name owner) →
      Means c name (.error (.tableNotFound name))
  | ambiguous {owners : List String} : c.tableAt? c.current name = none → 2 ≤ owners.length →
      owners.Nodup → owners.Pairwise (· ≤ ·) → (∀ owner, owner ∈ owners ↔ c.Owns name owner) →
        Means c name (.error (.ambiguousTable name owners))

def suppliers (c : Catalog) (name : String) : List (String × Installed) :=
  c.imported.filterMap fun m => (m.table? name).map (m.name, ·)

lemma mem_suppliers_iff : (owner, t) ∈ c.suppliers name ↔
    c.Reaches owner ∧ c.tableAt? owner name = some t := by
  rw [suppliers, List.mem_filterMap]
  constructor
  · rintro ⟨m, hm, ht⟩
    obtain ⟨t', ht', heq⟩ := Option.map_eq_some_iff.1 ht
    cases heq
    refine ⟨mem_imported_iff.1 (List.mem_map.2 ⟨m, hm, rfl⟩), ?_⟩
    rw [tableAt?_of_module? (module?_of_mem_imported hm), ht']
  · rintro ⟨hreaches, ht⟩
    obtain ⟨m, hm, rfl⟩ := List.mem_map.1 (mem_imported_iff.2 hreaches)
    rw [tableAt?_of_module? (module?_of_mem_imported hm)] at ht
    exact ⟨m, hm, by rw [ht]; rfl⟩

lemma map_fst_suppliers_sublist (ms : List Module) (name : String) :
    ((ms.filterMap fun m => (m.table? name).map (m.name, ·)).map Prod.fst).Sublist
      (ms.map Module.name) := by
  induction ms with
  | nil => exact .slnil
  | cons m ms ih =>
    rw [List.filterMap_cons, List.map_cons]
    cases m.table? name with
    | none => exact ih.cons _
    | some t => exact ih.cons_cons _

lemma nodup_suppliers (c : Catalog) (name : String) : ((c.suppliers name).map Prod.fst).Nodup :=
  (nodup_imported c).sublist (map_fst_suppliers_sublist c.imported name)

lemma mem_map_fst_suppliers_iff :
    owner ∈ (c.suppliers name).map Prod.fst ↔ c.Owns name owner := by
  rw [Owns, Option.isSome_iff_exists, List.mem_map]
  constructor
  · rintro ⟨⟨owner', t⟩, h, rfl⟩
    obtain ⟨hreaches, ht⟩ := mem_suppliers_iff.1 h
    exact ⟨hreaches, t, ht⟩
  · rintro ⟨hreaches, t, ht⟩
    exact ⟨(owner, t), mem_suppliers_iff.2 ⟨hreaches, ht⟩, rfl⟩

/-- Any list of just the modules that have a table of the name, without repetition, is theirs. -/
theorem map_fst_suppliers_perm {owners : List String} (hnodup : owners.Nodup)
    (hmem : ∀ owner, owner ∈ owners ↔ c.Owns name owner) :
    ((c.suppliers name).map Prod.fst).Perm owners := by
  apply (List.perm_ext_iff_of_nodup (nodup_suppliers c name) hnodup).2
  intro owner
  rw [mem_map_fst_suppliers_iff, hmem]

lemma findLocal_of_own (h : c.tableAt? c.current name = some t) : c.findLocal name = .ok t := by
  unfold findLocal
  split
  · rename_i u hown
    cases h.symm.trans hown
    rfl
  · rename_i hnone
    cases h.symm.trans hnone

/-- The answer if the current module has no table of the name. -/
theorem findLocal_of_none (h : c.tableAt? c.current name = none) : c.findLocal name =
    match c.suppliers name with
    | [] => .error (.tableNotFound name)
    | [(_, t)] => .ok t
    | owners => .error (.ambiguousTable name ((owners.map Prod.fst).mergeSort (· ≤ ·))) := by
  unfold findLocal
  split
  · rename_i hown
    cases h.symm.trans hown
  · rfl

/-- The answer of the search is what the name means. -/
theorem means_findLocal (c : Catalog) (name : String) : c.Means name (c.findLocal name) := by
  have howners := @mem_map_fst_suppliers_iff c name
  cases hown : c.tableAt? c.current name with
  | some t =>
    rw [findLocal_of_own hown]
    exact .own hown
  | none =>
    rw [findLocal_of_none hown]
    split
    · rename_i hempty
      refine .missing hown fun owner h => ?_
      rw [← howners, hempty] at h
      cases h
    · rename_i owner t hone
      have hmem : (owner, t) ∈ c.suppliers name := by
        rw [hone]
        exact List.mem_singleton.2 rfl
      obtain ⟨hreaches, ht⟩ := mem_suppliers_iff.1 hmem
      refine .imported hown hreaches ht fun other h => ?_
      rw [← howners, hone] at h
      simpa using h
    · rename_i hne_nil hne_one
      have hperm := List.mergeSort_perm ((c.suppliers name).map Prod.fst) (· ≤ ·)
      refine .ambiguous hown ?_ (hperm.nodup_iff.2 (nodup_suppliers c name))
        (List.pairwise_mergeSort' (· ≤ ·) _) fun owner => ?_
      · rw [hperm.length_eq, List.length_map]
        cases h : c.suppliers name with
        | nil => exact absurd h hne_nil
        | cons x xs =>
          cases xs with
          | nil => exact absurd h (hne_one x.1 x.2)
          | cons y ys => simp
      · rw [hperm.mem_iff, howners]

/-- What the name means is the answer of the search. -/
theorem Means.findLocal_eq (h : c.Means name r) : c.findLocal name = r := by
  cases h with
  | own ht => exact findLocal_of_own ht
  | @imported owner t hnone hreaches ht honly =>
    have hperm : ((c.suppliers name).map Prod.fst).Perm [owner] := by
      apply map_fst_suppliers_perm (List.nodup_singleton owner)
      intro other
      rw [List.mem_singleton]
      refine ⟨?_, honly other⟩
      rintro rfl
      exact ⟨hreaches, by rw [ht]; rfl⟩
    have hone : c.suppliers name = [(owner, t)] := by
      obtain ⟨⟨owner', t'⟩, hsuppliers, howner⟩ := List.map_eq_singleton_iff.1 hperm.eq_singleton
      have hmem : (owner, t) ∈ c.suppliers name := mem_suppliers_iff.2 ⟨hreaches, ht⟩
      rw [hsuppliers] at hmem ⊢
      rw [List.mem_singleton.1 hmem]
    rw [findLocal_of_none hnone, hone]
  | missing hnone hmissing =>
    have hempty : c.suppliers name = [] := by
      have hperm := map_fst_suppliers_perm List.nodup_nil fun owner =>
        iff_of_false List.not_mem_nil (hmissing owner)
      exact List.map_eq_nil_iff.1 hperm.eq_nil
    rw [findLocal_of_none hnone, hempty]
  | @ambiguous owners hnone hlength hnodup hsorted hmem =>
    have hperm := map_fst_suppliers_perm hnodup hmem
    have hlength' := hperm.length_eq
    rw [List.length_map] at hlength'
    have hsort : ((c.suppliers name).map Prod.fst).mergeSort (· ≤ ·) = owners :=
      ((List.mergeSort_perm _ _).trans hperm).eq_of_pairwise' (List.pairwise_mergeSort' (· ≤ ·) _)
        hsorted
    rw [findLocal_of_none hnone]
    split
    · rename_i hempty
      rw [hempty, List.length_nil] at hlength'
      omega
    · rename_i hone
      rw [hone, List.length_singleton] at hlength'
      omega
    · rw [hsort]

/-- Reaching depends on what is imported, not on how. -/
theorem reaches_congr (hcurrent : c'.current = c.current)
    (himports : ∀ a b, c'.Imports a b ↔ c.Imports a b) (owner : String) :
    c'.Reaches owner ↔ c.Reaches owner := by
  have hrel : c'.Imports = c.Imports := by
    funext a b
    exact propext (himports a b)
  rw [Reaches, Reaches, hcurrent, hrel]

/-- What a name means depends on the current module, on the tables of this name, and on which
modules import which. -/
theorem Means.congr (h : c.Means name r) (hcurrent : c'.current = c.current)
    (htables : ∀ owner, c'.tableAt? owner name = c.tableAt? owner name)
    (himports : ∀ a b, c'.Imports a b ↔ c.Imports a b) : c'.Means name r := by
  have hreaches := reaches_congr hcurrent himports
  have howns : ∀ owner, c'.Owns name owner ↔ c.Owns name owner := fun owner => by
    rw [Owns, Owns, hreaches, htables]
  have hnone : c'.tableAt? c'.current name = c.tableAt? c.current name := by
    rw [htables, hcurrent]
  cases h with
  | own ht => exact .own (hnone.trans ht)
  | imported ho hr ht honly =>
    exact .imported (hnone.trans ho) ((hreaches _).2 hr) ((htables _).trans ht)
      fun other h => honly other ((howns other).1 h)
  | missing ho hmissing =>
    exact .missing (hnone.trans ho) fun owner h => hmissing owner ((howns owner).1 h)
  | ambiguous ho hlength hnodup hsorted hmem =>
    exact .ambiguous (hnone.trans ho) hlength hnodup hsorted fun owner =>
      (hmem owner).trans (howns owner).symm

/-- A name without a module always has an answer, which is what it means in the modules that imports
lead to; the order in which these are imported, and how often, makes no difference. -/
theorem find_eq_iff_means (c : Catalog) {name : String} (hname : ¬ Text.colons <:+: name.toList) :
    (∀ r, c.find name = r ↔ c.Means name r) ∧
      ∀ c' : Catalog, c'.current = c.current →
        (∀ owner, c'.tableAt? owner name = c.tableAt? owner name) →
          (∀ a b, c'.Imports a b ↔ c.Imports a b) → c'.find name = c.find name := by
  have hfind : ∀ c : Catalog, c.find name = c.findLocal name := fun c => by
    rw [find, Text.splitQualified?_eq_none_iff.2 hname]
  refine ⟨fun r => ⟨?_, fun h => ?_⟩, fun c' hcurrent htables himports => ?_⟩
  · rintro rfl
    rw [hfind]
    exact means_findLocal c name
  · rw [hfind, h.findLocal_eq]
  · rw [hfind, hfind]
    exact ((means_findLocal c name).congr hcurrent htables himports).findLocal_eq

/-- Two modules that import each other, one of them also itself, and the current module imports one
of them twice: a name that both have a table of is ambiguous among just these two. -/
theorem ambiguous_among_modules_in_cycle :
    let c := (Session.run .default
      [.build "(defmodule A)", .build "(deftable t (k) (1))",
        .build "(defmodule B (import A))", .build "(deftable t (k) (2))",
        .build "(defmodule A (import B) (import A))",
        .build "(defmodule C (import A) (import A))"]).env.catalog
    ¬ Text.colons <:+: "t".toList ∧ c.Imports "A" "B" ∧ c.Imports "B" "A" ∧
      c.find "t" = .error (.ambiguousTable "t" ["A", "B"]) := by
  intro c
  have hname : ¬ Text.colons <:+: "t".toList := by decide
  obtain ⟨hC, hnone, hCA, hAB, hBA, hnames⟩ : c.current = "C" ∧ c.tableAt? "C" "t" = none ∧
      c.Imports "C" "A" ∧ c.Imports "A" "B" ∧ c.Imports "B" "A" ∧
        ∀ owner ∈ c.modules.map Module.name,
          (c.tableAt? owner "t").isSome ↔ owner ∈ ["A", "B"] := by
    decide +kernel
  have hleads : ∀ owner ∈ ["A", "B"], Relation.TransGen c.Imports "C" owner := by
    intro owner h
    obtain rfl | rfl := List.mem_pair.1 h
    · exact .single hCA
    · exact .tail (.single hCA) hAB
  have howners : ∀ owner, owner ∈ ["A", "B"] ↔ c.Owns "t" owner := by
    intro owner
    rw [Owns, Reaches, hC]
    constructor
    · intro h
      have hne : owner ≠ "C" := fun heq => by
        rw [heq] at h
        exact absurd h (by decide)
      obtain ⟨_, _, _, _, _, hsome⟩ := Relation.TransGen.tail'_iff.1 (hleads owner h)
      obtain ⟨m, hm⟩ := Option.isSome_iff_exists.1 hsome
      exact ⟨⟨hne, hleads owner h⟩, (hnames owner (mem_names_of_module? hm)).2 h⟩
    · rintro ⟨_, hsome⟩
      obtain ⟨t, ht⟩ := Option.isSome_iff_exists.1 hsome
      obtain ⟨m, hm⟩ := Option.isSome_iff_exists.1 (isSome_module?_of_tableAt? ht)
      exact (hnames owner (mem_names_of_module? hm)).1 hsome
  refine ⟨hname, hAB, hBA, ?_⟩
  apply ((find_eq_iff_means c hname).1 _).2
  refine .ambiguous ?_ (by decide) (by decide) (by decide) howners
  rw [hC, hnone]

end KeyedTables.Catalog
