import KeyedTables.Form

/-!
# Kinds of forms

What a form is that is a symbol, an atom, a list, or a list of atoms.
-/
namespace KeyedTables.Form

theorem symbol?_eq_some_iff {f : Form} {s : String} :
    f.symbol? = some s ↔ f = .atom (.symbol s) := by
  constructor
  · intro h
    cases f with
    | atom a =>
      cases a with
      | symbol name => cases h; rfl
      | string _ => cases h
      | integer _ => cases h
      | float _ => cases h
    | _ => cases h
  · rintro rfl
    rfl

theorem list?_eq_some_iff {f : Form} {xs : List Form} : f.list? = some xs ↔ f = .list xs := by
  constructor
  · intro h
    cases f with
    | list ys => cases h; rfl
    | _ => cases h
  · rintro rfl
    rfl

theorem atom?_eq_some_iff {f : Form} {a : Atom} : f.atom? = some a ↔ f = .atom a := by
  constructor
  · intro h
    cases f with
    | atom b => cases h; rfl
    | _ => cases h
  · rintro rfl
    rfl

theorem atoms?_eq_some_iff {fs : List Form} {xs : List Atom} :
    atoms? fs = some xs ↔ fs = xs.map .atom := by
  constructor
  · intro h
    induction fs generalizing xs with
    | nil => cases h; rfl
    | cons f fs ih =>
      obtain ⟨a, ha, h⟩ := Option.bind_eq_some_iff.1 h
      obtain ⟨as, has, h⟩ := Option.bind_eq_some_iff.1 h
      cases h
      rw [atom?_eq_some_iff.1 ha, ih has, List.map_cons]
  · rintro rfl
    exact atoms?_map_atom xs

/-- A constant is the form that reads as its value. -/
theorem eq_ofValue_of_literal? {f : Form} {v : Value} (h : f.literal? = some v) :
    f = ofValue v := by
  cases f with
  | atom a =>
    cases h
    rfl
  | list fs =>
    obtain ⟨xs, hxs, rfl⟩ := Option.map_eq_some_iff.1 h
    rw [atoms?_eq_some_iff.1 hxs]
    rfl
  | _ => cases h

end KeyedTables.Form
