import KeyedTables.Proofs.Catalog.Slots

/-!
# Installation

What the installation of a table makes of a catalog. One module has a table more, at the place of
the one that bore its name or at the end; everything else is as it was.
-/
namespace KeyedTables

/-- The module with one more table, which takes the place of the one of its name, or comes last. -/
structure Module.Gains (m m' : Module) (new : Installed) : Prop where
  name : m'.name = m.name
  imports : m'.imports = m.imports
  listing : (m.table? new.table.name = none ∧ m'.listing = m.listing ++ [new]) ∨
    ∃ old before after, m.table? new.table.name = some old ∧
      m.listing = before ++ old :: after ∧ m'.listing = before ++ new :: after

lemma Module.Valid.gains_put {m : Module} (h : m.Valid) (new : Installed) :
    m.Gains (m.put new) new where
  name := rfl
  imports := rfl
  listing := by
    cases hold : m.table? new.table.name with
    | none => exact Or.inl ⟨rfl, listing_put_of_none h hold⟩
    | some old =>
      obtain ⟨before, after, hm, hput⟩ := listing_put_of_some h hold
      exact Or.inr ⟨old, before, after, rfl, hm, hput⟩

namespace Catalog
variable {c c₁ c' : Catalog} {new : Installed}

/-- The catalog with one more table, which stands in the slot that it names. -/
structure Gains (c c' : Catalog) (new : Installed) : Prop where
  current : c'.current = c.current
  busy (t : Installed) : c'.busy t = c.busy t
  slots (owner name : String) : c'.tableAt? owner name =
    if owner = new.table.module ∧ name = new.table.name then some new else c.tableAt? owner name
  modules : ∃ before m m' after, c.modules = before ++ m :: after ∧
    c'.modules = before ++ m' :: after ∧ m.name = new.table.module ∧ m.Gains m' new

theorem Valid.gains_install (h : c.Valid) {table : Table} (hi : c.install table = .ok (c', new)) :
    c.Gains c' new := by
  obtain ⟨rfl, m, hm, _, rfl⟩ := install_eq_ok hi
  let next : Catalog := { c with nextSerial := c.nextSerial + 1 }
  have hnext : next.Valid := h.congr rfl rfl
  have hname : m.name = table.module := name_of_module? hm
  have hsome : (next.module? m.name).isSome := by
    rw [hname]
    exact hm ▸ rfl
  have hmem : m ∈ next.modules := mem_of_module? hm
  refine ⟨rfl, fun t => rfl, fun owner name => ?_, ?_⟩
  · rw [tableAt?_updateModule_put next hsome, hname]
    rfl
  · obtain ⟨before, after, hsplit, hupdate⟩ :=
      hnext.modules_updateModule hmem (·.put ⟨c.nextSerial, table⟩)
    exact ⟨before, m, _, after, hsplit, hupdate, hname, (h.modules m hmem).gains_put _⟩

/-- A catalog that is the same but for pins, and as busy, gains the same. -/
theorem Gains.congr (h : c₁.Gains c' new) (hmodules : c₁.modules = c.modules)
    (hcurrent : c₁.current = c.current) (hbusy : ∀ t, c₁.busy t = c.busy t) :
    c.Gains c' new where
  current := h.current.trans hcurrent
  busy t := (h.busy t).trans (hbusy t)
  slots owner name := by rw [h.slots, tableAt?_congr hmodules]
  modules := hmodules ▸ h.modules

end Catalog

end KeyedTables
