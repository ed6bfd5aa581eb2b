import KeyedTables.Evaluation

/-!
# Evaluation by name

Forms evaluated as they stand, without being resolved into expressions first. A variable is looked
up among the frames at the moment it is read: it means the row of the innermost query whose row
variable has its name, a column of this row if the part of the name before the first colon has, and
a local variable otherwise. Tables given by a symbol are those of a catalog fixed beforehand.
-/
namespace KeyedTables

/-- What a form looks like as an argument of a call. -/
def Form.shape : Form → Shape
  | var x => .localVar x
  | globalVar x => .globalVar x
  | atom (.symbol s) => if s = "else" then .elseMark else .other
  | _ => .other

namespace Named

/-- The innermost query with a row variable. -/
def frameOf? (env : Environment) (rowVariable : String) : Option Frame :=
  env.frames.find? (·.rowVariable = rowVariable)

/-- The key of the row a query is at. -/
def rowKey (f : Frame) : Action Value :=
  match f.table.table.rowKey? f.row with
  | some v => pure v
  | none => .fail (.unbound (.var f.rowVariable))

/-- The cell under a column of the row a query is at. -/
def column (f : Frame) (name : String) : Action Value :=
  match f.table.table.columnOrdinal? (.symbol name) with
  | none => .fail (.unknownColumn f.op f.rowVariable name f.table.table.name)
  | some col =>
    match f.table.table.cell? f.row col with
    | some v => pure v
    | none => .fail (.unbound (.var f.rowVariable))

/-- The value of a variable by its name. -/
def readVar (name : String) : Action Value := do
  let env ← .environment
  match frameOf? env name with
  | some f => rowKey f
  | none =>
    match Text.splitMember? name with
    | none => readLocal name
    | some (rowVariable, columnName) =>
      match frameOf? env rowVariable with
      | some f => column f columnName
      | none => readLocal name

/-- The action of a query: nothing, one form, or several one after another. -/
def action : List Operand → Action Value
  | [] => pure .false
  | [o] => o.run
  | os => Call.sequence .false os

section
variable (catalog : Catalog)

mutual

def eval : Form → Action Value
  | .atom a => pure (.atom a)
  | .var v => readVar v
  | .globalVar g => readGlobal g
  | .list items => call items
  | .immediate items => call items

/-- A function or an operator applied to forms. -/
def call : List Form → Action Value
  | [] => .fail (.invalidExpression .emptyCall)
  | head :: args =>
    match head.symbol? with
    | none => .fail (.invalidExpression (.functionName head))
    | some name =>
      match Operator.ofName? name with
      | some op => query op args
      | none =>
        match Builtin.ofName? name with
        | none => .fail (.unknownFunction name)
        | some function => Call.run function (operands args)

def operands : List Form → List Operand
  | [] => []
  | f :: fs => ⟨f.shape, eval f⟩ :: operands fs

/-- A query: row variable, table and possibly a key, then the test and the action. -/
def query (op : Operator) : List Form → Action Value
  | .list [.var v, t] :: test :: actions =>
    Query.run op v (target op t) none ⟨eval test, action (operands actions)⟩
  | .list [.var v, t, k] :: test :: actions =>
    Query.run op v (target op t) (some (eval k)) ⟨eval test, action (operands actions)⟩
  | _ => .fail (.invalidExpression (.missingBinding op))

/-- The table of a query. -/
def target (op : Operator) : Form → Action Installed
  | .atom (.symbol name) =>
    match catalog.find name with
    | .ok t => Query.findKnown t
    | .error e => .fail e
  | .atom a => .fail (.invalidTableName op.name (.atom a))
  | .var v => do
    let name ← readVar v
    Query.findNamed op name
  | .globalVar g => do
    let name ← readGlobal g
    Query.findNamed op name
  | .list items => do
    let name ← call items
    Query.findNamed op name
  | .immediate items => do
    let name ← call items
    Query.findNamed op name

end

end

end Named

end KeyedTables
