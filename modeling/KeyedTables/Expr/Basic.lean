import KeyedTables.Catalog.Basic

/-!
# Expressions

What is evaluated: forms in which every name has been resolved as far as it can be beforehand. A
call has its function and a query its operator, a row variable is given by the number of queries
between it and its own, and a column by its ordinal if the table is known.
-/
namespace KeyedTables

mutual

inductive Expr
  | const (v : Value)
  | localVar (name : String)
  | globalVar (name : String)
  | call (function : Builtin) (args : List Expr)
  /-- The key of the current row of the query `depth` queries further out. -/
  | rowKey (depth : Nat)
  /-- A cell of that row, its column by ordinal if it is known and by key otherwise. -/
  | column (depth : Nat) (key : Atom) (ordinal : Option Nat)
  | query (op : Operator) (rowVariable : String) (target : Target) (key : Option Expr) (test : Expr)
      (action : Option Expr)
  deriving Repr

/-- The table a query goes over. -/
inductive Target
  /-- A table resolved beforehand; it has to be the installed one still. -/
  | known (t : Installed)
  /-- A table named by a value. -/
  | named (name : Expr)
  deriving Repr

end

end KeyedTables
