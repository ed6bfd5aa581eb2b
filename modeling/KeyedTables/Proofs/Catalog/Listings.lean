import KeyedTables.Proofs.Catalog.Valid
import Mathlib.Data.List.Flatten

/-!
# Listings

What operations make of the order in which tables are listed. A table that is put into a module
takes the place of the one of its name, or comes last; a table that is taken away leaves the others
in their order.
-/
namespace KeyedTables

namespace Module
variable {m : Module} {t old : Installed}

/-- Names that a table does not bear are looked up as before it was put there. -/
theorem filterMap_put {order : List String} (h : t.table.name ∉ order) :
    order.filterMap (m.put t).table? = order.filterMap m.table? := by
  apply List.filterMap_congr
  intro name hname
  have hne : name ≠ t.table.name := fun heq => h (heq ▸ hname)
  rw [table?_put, if_neg hne]

lemma table?_put_self (m : Module) (t : Installed) : (m.put t).table? t.table.name = some t := by
  rw [table?_put, if_pos rfl]

/-- A table of a new name comes last. -/
theorem listing_put_of_none (h : m.Valid) (hnew : m.table? t.table.name = none) :
    (m.put t).listing = m.listing ++ [t] := by
  have hnotMem : t.table.name ∉ m.order := by
    rw [h.mem_order_iff, ← isSome_table?_iff, hnew]
    exact Bool.false_ne_true
  have horder : (m.put t).order = m.order ++ [t.table.name] := by
    simp only [put, hnew, Option.isSome_none]
    rfl
  rw [listing, horder, List.filterMap_append, filterMap_put hnotMem,
    List.filterMap_cons_some (m.table?_put_self t), List.filterMap_nil]
  rfl

/-- The order cut at the name of a table, which stands neither in front nor behind. -/
theorem Valid.order_split (h : m.Valid) {name : String} (hold : m.table? name = some old) :
    ∃ before after, m.order = before ++ name :: after ∧ name ∉ before ∧ name ∉ after := by
  have hmem : name ∈ m.order := by
    rw [h.mem_order_iff, ← isSome_table?_iff, hold]
    rfl
  obtain ⟨before, after, hsplit⟩ := List.append_of_mem hmem
  have hnodup := h.nodup_order
  rw [hsplit, List.nodup_middle, List.nodup_cons, List.mem_append, not_or] at hnodup
  exact ⟨before, after, hsplit, hnodup.1⟩

/-- A table of an old name takes the place of the one that bore it. -/
theorem listing_put_of_some (h : m.Valid) (hold : m.table? t.table.name = some old) :
    ∃ before after, m.listing = before ++ old :: after ∧
      (m.put t).listing = before ++ t :: after := by
  obtain ⟨before, after, hsplit, hbefore, hafter⟩ := h.order_split hold
  have horder : (m.put t).order = m.order := by
    simp only [put, hold, Option.isSome_some, if_true]
  refine ⟨before.filterMap m.table?, after.filterMap m.table?, ?_, ?_⟩
  · rw [listing, hsplit, List.filterMap_append, List.filterMap_cons_some hold]
  · rw [listing, horder, hsplit, List.filterMap_append,
      List.filterMap_cons_some (m.table?_put_self t), filterMap_put hbefore, filterMap_put hafter]

/-- What is listed when a table is taken away: its name is left out, the others mean the same. -/
theorem listing_drop (m : Module) (name : String) :
    (m.drop name).listing = (m.order.filter (· ≠ name)).filterMap m.table? := by
  apply List.filterMap_congr
  intro other hother
  rw [table?_drop, if_neg (of_decide_eq_true (List.mem_filter.1 hother).2)]

/-- A table that is taken away leaves those in front of it and those behind it. -/
theorem listing_drop_of_some (h : m.Valid) {name : String} (hold : m.table? name = some old) :
    ∃ before after, m.listing = before ++ old :: after ∧
      (m.drop name).listing = before ++ after := by
  obtain ⟨before, after, hsplit, hbefore, hafter⟩ := h.order_split hold
  have hkeep : ∀ names : List String, name ∉ names → names.filter (· ≠ name) = names :=
    fun names hnotMem => List.filter_eq_self.2 fun other hother =>
      decide_eq_true fun heq => hnotMem (heq ▸ hother)
  refine ⟨before.filterMap m.table?, after.filterMap m.table?, ?_, ?_⟩
  · rw [listing, hsplit, List.filterMap_append, List.filterMap_cons_some hold]
  · rw [listing_drop, hsplit, List.filter_append, List.filter_cons_of_neg (by simp),
      hkeep before hbefore, hkeep after hafter, List.filterMap_append]

lemma listing_drop_sublist (m : Module) (name : String) :
    (m.drop name).listing.Sublist m.listing := by
  rw [listing_drop]
  exact List.filter_sublist.filterMap m.table?

end Module

namespace Catalog
variable {c c' : Catalog} {name : String}

/-- A change of one module leaves the modules in front of it and behind it as they are. -/
theorem Valid.modules_updateModule (h : c.Valid) {m : Module} (hm : m ∈ c.modules)
    (f : Module → Module) : ∃ before after, c.modules = before ++ m :: after ∧
      (c.updateModule m.name f).modules = before ++ f m :: after := by
  obtain ⟨before, after, hsplit⟩ := List.append_of_mem hm
  obtain ⟨hbefore, hafter⟩ : (∀ m' ∈ before, m'.name ≠ m.name) ∧ ∀ m' ∈ after, m'.name ≠ m.name := by
    have hnodup := h.nodup_modules
    rw [moduleNames, hsplit, List.map_append, List.map_cons, List.nodup_middle, List.nodup_cons,
      List.mem_append, not_or] at hnodup
    exact ⟨fun m' hm' heq => hnodup.1.1 (List.mem_map.2 ⟨m', hm', heq⟩),
      fun m' hm' heq => hnodup.1.2 (List.mem_map.2 ⟨m', hm', heq⟩)⟩
  have hkeep : ∀ ms : List Module, (∀ m' ∈ ms, m'.name ≠ m.name) →
      (ms.map fun m' => if m'.name = m.name then f m' else m') = ms := by
    intro ms hms
    rw [List.map_congr_left fun m' hm' => if_neg (hms m' hm'), List.map_id']
  refine ⟨before, after, hsplit, ?_⟩
  rw [Catalog.updateModule, hsplit, List.map_append, List.map_cons, hkeep before hbefore,
    hkeep after hafter, if_pos rfl]

theorem tables_remove_sublist (hr : c.remove name = .ok c') : c'.tables.Sublist c.tables := by
  obtain ⟨t, m, _, _, _, rfl⟩ := remove_eq_ok hr
  rw [tables, updateModule, List.flatMap_map]
  apply List.Sublist.flatMap_right
  intro m' _
  split
  · exact Module.listing_drop_sublist m' t.table.name
  · exact .refl _

end Catalog

end KeyedTables
