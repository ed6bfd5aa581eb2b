import KeyedTables.Proofs.Catalog.Slots
import KeyedTables.Proofs.Expr.WellFormed

/-!
# Grounded expressions

What resolution takes from the catalog: a table that is known beforehand is one of the catalog, and
an ordinal that is stored is the one that the column has in the known table of the query it refers
to. The known tables of the queries around an expression are listed from the innermost outwards,
with a gap for every query whose table is not known.
-/
namespace KeyedTables

/-- Known tables are tables of the catalog, and ordinals are those of the known tables. -/
inductive Expr.Grounded (c : Catalog) : List (Option Table) → Expr → Prop
  | const {known : List (Option Table)} {v : Value} : Grounded c known (.const v)
  | localVar {known : List (Option Table)} {x : String} : Grounded c known (.localVar x)
  | globalVar {known : List (Option Table)} {x : String} : Grounded c known (.globalVar x)
  | call {known : List (Option Table)} {function : Builtin} {args : List Expr} :
      (∀ a ∈ args, Grounded c known a) → Grounded c known (.call function args)
  | rowKey {known : List (Option Table)} {depth : Nat} : Grounded c known (.rowKey depth)
  | column {known : List (Option Table)} {depth : Nat} {key : Atom} {ordinal : Option Nat} :
      (∀ i, ordinal = some i →
        ∃ t, known[depth]? = some (some t) ∧ t.columnOrdinal? (.atom key) = some i) →
          Grounded c known (.column depth key ordinal)
  | query {known : List (Option Table)} {op : Operator} {rowVariable : String} {target : Target}
      {key : Option Expr} {test : Expr} {action : Option Expr} :
      (∀ t, target = .known t → c.Holds t) → (∀ e, target = .named e → Grounded c known e) →
        (∀ k, key = some k → Grounded c known k) → Grounded c (target.table? :: known) test →
          (∀ a, action = some a → Grounded c (target.table? :: known) a) →
            Grounded c known (.query op rowVariable target key test action)

abbrev Scope.known (scope : Scope) : List (Option Table) := scope.map Binder.table

/-- What is well-formed is grounded, if every table that is found is one of the catalog. -/
theorem Expr.WellFormed.grounded {c : Catalog} (hc : c.Valid) {scope : Scope} {e : Expr}
    (h : e.WellFormed c scope) : e.Grounded c scope.known := by
  induction h with
  | const => exact .const
  | localVar => exact .localVar
  | globalVar => exact .globalVar
  | call _ _ _ _ ihargs => exact .call ihargs
  | rowKey _ => exact .rowKey
  | columnByKey _ _ => exact .column fun i hi => by cases hi
  | @columnByOrdinal scope depth b name t i hb ht hcol =>
    refine .column fun j hj => ⟨t, ?_, ?_⟩
    · rw [Scope.known, List.getElem?_map, hb, Option.map_some, ht]
    · cases hj
      exact hcol
  | query _ hknown _ _ _ _ ihnamed ihkey ihtest ihaction =>
    refine .query (fun t ht => ?_) ihnamed ihkey ihtest ihaction
    obtain ⟨_, hfind⟩ := hknown t ht
    exact hc.holds_of_find hfind

/-- What a form is resolved into outside of queries is grounded in the catalog. -/
theorem Resolution.grounded_ofForm {c : Catalog} (hc : c.Valid) {f : Form} {e : Expr}
    (h : Expr.ofForm c [] f = .ok e) : Expr.Grounded c [] e :=
  (wellFormed_form f h).grounded hc

end KeyedTables
