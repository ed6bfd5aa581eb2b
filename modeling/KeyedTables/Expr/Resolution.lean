import KeyedTables.Catalog.Names
import KeyedTables.Expr.Basic

/-!
# Resolution

From forms to expressions. The binders of the enclosing queries are in scope, the innermost first:
a variable that names one becomes a reference by depth, a table given by a symbol is looked up in
the catalog, and a form that does not fit its function or operator is refused.
-/
namespace KeyedTables

/-- The row variable of a query, in scope in its test and action. -/
structure Binder where
  rowVariable : String
  /-- The table, if it is known. -/
  table : Option Table
  op : Operator

/-- The binders in scope, the innermost first. -/
abbrev Scope := List Binder

namespace Scope

/-- The innermost binder of a variable, and the number of binders inside it. -/
def find? : Scope → String → Option (Nat × Binder)
  | [], _ => none
  | b :: scope, name =>
    if b.rowVariable = name then some (0, b)
    else (find? scope name).map fun (depth, b) => (depth + 1, b)

/-- A variable is a row variable of the scope, a column of one, or else a local variable. -/
def resolveVar (scope : Scope) (name : String) : Except Error Expr :=
  match scope.find? name with
  | some (depth, _) => .ok (.rowKey depth)
  | none =>
    match Text.splitMember? name with
    | none => .ok (.localVar name)
    | some (rowVariable, column) =>
      match scope.find? rowVariable with
      | none => .ok (.localVar name)
      | some (depth, b) =>
        match b.table with
        | none => .ok (.column depth (.symbol column) none)
        | some t =>
          match t.columnOrdinal? (.symbol column) with
          | some i => .ok (.column depth (.symbol column) (some i))
          | none => .error (.unknownColumn b.op rowVariable column t.name)

/-- The part of a variable's name that may be a row variable. -/
def rowPart (name : String) : String := ((Text.splitMember? name).map Prod.fst).getD name

/-- A local variable that may be bound: no row variable of the scope, nor a column of one. -/
def bindable (scope : Scope) (name : String) : Except Error Unit :=
  match scope.find? (rowPart name) with
  | some (_, b) => .error (.rowVariableRebind b.op name)
  | none => .ok ()

end Scope

/-- The table of a query given by a symbol. -/
def Target.ofSymbol (catalog : Catalog) (op : Operator) (name : String) : Except Error Target :=
  match catalog.find name with
  | .ok t => .ok (.known t)
  | .error (.tableNotFound _) => .error (.unknownTable op name)
  | .error e => .error e

/-- The table in a binder. -/
def Target.table? : Target → Option Table
  | known t => some t.table
  | named _ => none

/-- The variable in front of the binding of a query. -/
def rowVariableOf (op : Operator) : Form → Except Error String
  | .var v =>
    if (Text.splitMember? v).isSome then .error (.invalidExpression (.rowVariable op (.var v)))
    else .ok v
  | other => .error (.invalidExpression (.rowVariable op other))

/-- What `bind` binds. -/
def bindTargetOf (scope : Scope) : Form → Except Error Expr
  | .var v =>
    match scope.bindable v with
    | .error e => .error e
    | .ok () => .ok (.localVar v)
  | .globalVar g => .ok (.globalVar g)
  | other => .error (.invalidExpression (.bindTarget other))

/-- Whether the number of arguments suits a function. -/
def checkArity (function : Builtin) (found : Nat) : Except Error Unit :=
  if function.arity.admits found then .ok ()
  else .error (.arity function.name function.arity found)

/-- Whether a body has a test and, as the operator has it, an action. -/
def checkBody (op : Operator) (found : Nat) : Except Error Unit :=
  if found = 0 ∨ (!op.hasAction ∧ found ≠ 1) then
    .error (.arity op.name (if op.hasAction then .atLeast 2 else .exactly 2) (found + 1))
  else .ok ()

/-- The second argument of `if` is the symbol `then`. -/
def checkThen : List Form → Except Error Unit
  | _ :: t :: _ => if t.symbol? = some "then" then .ok () else .error (.invalidExpression .missingThen)
  | _ => .error (.invalidExpression .missingThen)

namespace Expr

section
variable (catalog : Catalog)

mutual

/-- The expression a form stands for. -/
def ofForm (scope : Scope) : Form → Except Error Expr
  | .atom a => .ok (.const (.atom a))
  | .globalVar g => .ok (.globalVar g)
  | .var v => scope.resolveVar v
  | .list items => ofCall scope items
  | .immediate items => ofCall scope items

/-- A call: a function or an operator in front, then its arguments. -/
def ofCall (scope : Scope) : List Form → Except Error Expr
  | [] => .error (.invalidExpression .emptyCall)
  | head :: args =>
    match head.symbol? with
    | none => .error (.invalidExpression (.functionName head))
    | some name =>
      match Operator.ofName? name with
      | some op => ofQuery scope op args
      | none =>
        match Builtin.ofName? name with
        | none => .error (.unknownFunction name)
        | some function => do
          checkArity function args.length
          match function with
          | .bind => ofBind scope args
          | .ifThen => do
            checkThen args
            let es ← ofForms scope args
            .ok (.call .ifThen es)
          | function => do
            let es ← ofForms scope args
            .ok (.call function es)

def ofForms (scope : Scope) : List Form → Except Error (List Expr)
  | [] => .ok []
  | f :: fs => do
    let e ← ofForm scope f
    let es ← ofForms scope fs
    .ok (e :: es)

/-- `bind`: the target, which is not evaluated, and the values. -/
def ofBind (scope : Scope) : List Form → Except Error Expr
  | [] => .error (.invalidExpression .noBindTarget)
  | target :: values => do
    let t ← bindTargetOf scope target
    let es ← ofForms scope values
    .ok (.call .bind (t :: es))

/-- A query: the binding of the row variable, the test, and the action. -/
def ofQuery (scope : Scope) (op : Operator) : List Form → Except Error Expr
  | [] => .error (.invalidExpression (.missingBinding op))
  | .list binding :: body => do
    let (rowVariable, target, key) ← ofBinding scope op binding
    checkBody op body.length
    let (test, action) ← ofBody (⟨rowVariable, target.table?, op⟩ :: scope) body
    .ok (.query op rowVariable target key test action)
  | other :: _ => .error (.invalidExpression (.bindingList op other))

/-- A binding: the row variable, the table, and the key if the operator takes one. Table and key
stand outside the query and do not see its row variable. -/
def ofBinding (scope : Scope) (op : Operator) :
    List Form → Except Error (String × Target × Option Expr)
  | [v, t] =>
    if op.takesKey then .error (.invalidExpression (.bindingShape op (.list [v, t])))
    else do
      let rowVariable ← rowVariableOf op v
      let target ← ofTarget scope op t
      .ok (rowVariable, target, none)
  | [v, t, k] =>
    if op.takesKey then do
      let rowVariable ← rowVariableOf op v
      let target ← ofTarget scope op t
      let key ← ofForm scope k
      .ok (rowVariable, target, some key)
    else .error (.invalidExpression (.bindingShape op (.list [v, t, k])))
  | other => .error (.invalidExpression (.bindingShape op (.list other)))

/-- The table of a query: a symbol names it, any other form but an atom yields its name. -/
def ofTarget (scope : Scope) (op : Operator) : Form → Except Error Target
  | .atom (.symbol name) => Target.ofSymbol catalog op name
  | .atom a => .error (.invalidTableName op.name (.atom a))
  | .globalVar g => .ok (.named (.globalVar g))
  | .var v => do
    let e ← scope.resolveVar v
    .ok (.named e)
  | .list items => do
    let e ← ofCall scope items
    .ok (.named e)
  | .immediate items => do
    let e ← ofCall scope items
    .ok (.named e)

/-- A body: the test, and behind it the action, several forms being done one after another. -/
def ofBody (scope : Scope) : List Form → Except Error (Expr × Option Expr)
  | [] => .ok (.const .false, none)
  | [test] => do
    let t ← ofForm scope test
    .ok (t, none)
  | [test, action] => do
    let t ← ofForm scope test
    let a ← ofForm scope action
    .ok (t, some a)
  | test :: actions => do
    let t ← ofForm scope test
    let es ← ofForms scope actions
    .ok (t, some (.call .progn es))

end

end

end Expr

end KeyedTables
