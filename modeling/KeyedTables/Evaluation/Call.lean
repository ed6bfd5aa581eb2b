import KeyedTables.Evaluation.Arithmetic
import KeyedTables.Evaluation.Query

/-!
# Calls

What each function does with its operands. Most functions evaluate all of them from left to right;
`and` and `or` stop as soon as the answer is known, sequences stop at an interruption, `if` evaluates
one of its branches, and `bind` looks at its first operand without evaluating it.
-/
namespace KeyedTables

/-- What an operand looks like, as far as a call cares. -/
inductive Shape
  | localVar (name : String)
  | globalVar (name : String)
  /-- The symbol between the two branches of `if`. -/
  | elseMark
  | other
  deriving DecidableEq, Repr

/-- An argument of a call: what it looks like, and what its evaluation does. -/
structure Operand where
  shape : Shape
  run : Action Value

namespace Call

/-- Evaluates all operands in order. -/
def runAll : List Operand → Action (List Value)
  | [] => pure []
  | o :: os => do
    let v ← o.run
    let vs ← runAll os
    pure (v :: vs)

/-- Evaluates the operand at a position. -/
def argument (function : Builtin) (operands : List Operand) (position : Nat) : Action Value :=
  match operands[position]? with
  | some o => o.run
  | none => .fail (.missingArgument function position)

/-- Whether all operands are true; evaluates none behind the first that is not. -/
def conjunction : List Operand → Action Value
  | [] => pure (.boolean true)
  | o :: os => do
    let v ← o.run
    if v.isTrue then conjunction os else pure (.boolean false)

/-- Whether some operand is true; evaluates none behind the first that is. -/
def disjunction : List Operand → Action Value
  | [] => pure (.boolean false)
  | o :: os => do
    let v ← o.run
    if v.isTrue then pure (.boolean true) else disjunction os

/-- Evaluates operands one after another up to an interruption; the value is the last one's. -/
def sequence (last : Value) : List Operand → Action Value
  | [] => pure last
  | o :: os => do
    let v ← o.run
    if (← .environment).interrupted then pure v else sequence v os

/-- Equality of the first value with all others, or inequality with all others. -/
def agree (function : Builtin) : List Value → Except Error Value
  | [] => .error (.arity function.name (.atLeast 1) 0)
  | first :: rest =>
    match function with
    | .eq => .ok (.boolean (rest.all (· = first)))
    | _ => .ok (.boolean (rest.all (· ≠ first)))

/-- The operands in front of the first `else`, and those behind it. -/
def branches : List Operand → List Operand × List Operand
  | [] => ([], [])
  | o :: os => if o.shape = .elseMark then ([], os) else (o :: (branches os).1, (branches os).2)

/-- `if`: the condition, a marker, and the branches. -/
def choose : List Operand → Action Value
  | condition :: _ :: body => do
    let v ← condition.run
    if v.isTrue then sequence .false (branches body).1 else sequence .false (branches body).2
  | operands => .fail (.missingArgument .ifThen operands.length)

/-- A single value is bound as it is, several as one multifield. -/
def bound : List Value → Value
  | [v] => v
  | vs => .concat vs

/-- Binds a variable. A global variable must exist. -/
def assign (target : Shape) (v : Value) : Action Value :=
  match target with
  | .localVar x => do
    .update fun env => { env with locals := env.locals.set x v }
    pure v
  | .globalVar x => do
    let env ← .environment
    match env.globals.get? x with
    | some _ => do
      .update fun env => { env with globals := env.globals.set x v }
      pure v
    | none => .fail (.unbound (.globalVar x))
  | _ => .fail (.invalidExpression .noBindTarget)

def bind : List Operand → Action Value
  | target :: values => do
    let vs ← runAll values
    assign target.shape (bound vs)
  | [] => .fail (.missingArgument .bind 0)

/-- The atom of a multifield at a position counted from one. -/
def nth (index : Int64) (xs : List Atom) : Except Error Value :=
  match if 0 < index.toInt then xs[index.toInt.toNat - 1]? else none with
  | some a => .ok (.atom a)
  | none => .error (.indexOutOfRange xs.length index)

/-- Appends to the output. -/
def emit (s : String) : Action Unit := .update fun env => { env with output := env.output ++ s }

/-- Stops evaluation altogether. -/
def halt : Action Value := do
  .update fun env => { env with halted := true }
  pure .false

/-- The output a value stands for; the symbol `crlf` stands for a line break. -/
def printed (v : Value) : String := if v = .symbol "crlf" then "\n" else v.bareText

def printAll : List Operand → Action Value
  | [] => pure .false
  | o :: os => do
    let v ← o.run
    emit (printed v)
    printAll os

/-- Evaluates the operand that names a table. -/
def tableName (function : Builtin) (operands : List Operand) : Action String := do
  let v ← argument function operands 0
  match v.lexeme? with
  | some name => pure name
  | none => .fail (.typeMismatch function .tableName v)

/-- The table that the first operand names. -/
def tableArgument (function : Builtin) (operands : List Operand) : Action Table := do
  let name ← tableName function operands
  let t ← Query.findTable name
  pure t.table

/-- Removes the table of a name. -/
def removeTable (name : String) : Action Value := do
  let env ← .environment
  match env.catalog.remove name with
  | .ok catalog => do
    .update fun env => { env with catalog }
    pure (.boolean true)
  | .error e => .fail e

/-- Applies a function to its operands. -/
def run (function : Builtin) (operands : List Operand) : Action Value :=
  match function with
  | .add | .sub | .mul | .div => do
    let vs ← runAll operands
    .ofExcept (Arithmetic.apply function vs)
  | .numEq | .numNe | .gt | .ge | .lt | .le => do
    let vs ← runAll operands
    .ofExcept (Arithmetic.compare function vs)
  | .eq | .neq => do
    let vs ← runAll operands
    .ofExcept (agree function vs)
  | .and => conjunction operands
  | .or => disjunction operands
  | .not => do
    let v ← argument function operands 0
    pure (.boolean !v.isTrue)
  | .progn => sequence .false operands
  | .ifThen => choose operands
  | .bind => bind operands
  | .createField => do
    let vs ← runAll operands
    pure (.concat vs)
  | .fieldLength => do
    match ← argument function operands 0 with
    | .multifield xs => pure (.integer (Int64.ofNat xs.length))
    | v => .fail (.typeMismatch function .multifield v)
  | .fieldNth => do
    let index ← argument function operands 0
    match index.integer? with
    | none => .fail (.typeMismatch function .integerIndex index)
    | some n =>
      match ← argument function operands 1 with
      | .multifield xs => .ofExcept (nth n xs)
      | v => .fail (.typeMismatch function .multifield v)
  | .strCat => do
    let vs ← runAll operands
    pure (.string (String.join (vs.map Value.bareText)))
  | .symCat => do
    let vs ← runAll operands
    pure (.symbol (String.join (vs.map Value.bareText)))
  | .printout => do
    let _ ← argument function operands 0
    printAll operands.tail
  | .break => Query.abort
  | .halt => halt
  | .lookup => do
    let t ← tableArgument function operands
    let row ← argument function operands 1
    let col ← argument function operands 2
    .ofExcept (t.lookup row col)
  | .containsKey => do
    let t ← tableArgument function operands
    let key ← argument function operands 1
    pure (.boolean (t.containsKey key))
  | .tableColumns => do
    let t ← tableArgument function operands
    pure (.multifield t.columns)
  | .tableRowCount => do
    let t ← tableArgument function operands
    pure (.integer (Int64.ofNat t.rowCount))
  | .undefineTable => do
    let name ← tableName function operands
    removeTable name

end Call

end KeyedTables
