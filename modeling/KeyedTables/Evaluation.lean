import KeyedTables.Evaluation.Call

/-!
# Evaluation

The evaluation of expressions, by recursion on them: variables are looked up, references to rows and
columns go to the frames, calls and queries combine the evaluations of their parts. It ends on every
expression, since a scan visits each row of a table at most once.
-/
namespace KeyedTables

def readLocal (name : String) : Action Value := do
  let env ← .environment
  match env.locals.get? name with
  | some v => pure v
  | none => .fail (.unbound (.var name))

def readGlobal (name : String) : Action Value := do
  let env ← .environment
  match env.globals.get? name with
  | some v => pure v
  | none => .fail (.unbound (.globalVar name))

def Expr.shape : Expr → Shape
  | localVar x => .localVar x
  | globalVar x => .globalVar x
  | const (.atom (.symbol s)) => if s = "else" then .elseMark else .other
  | _ => .other

namespace Expr

mutual

def eval : Expr → Action Value
  | .const v => pure v
  | .localVar x => readLocal x
  | .globalVar x => readGlobal x
  | .call function args => Call.run function (operands args)
  | .rowKey depth => Query.rowKey depth
  | .column depth key ordinal => Query.column depth key ordinal
  | .query op rowVariable target key test action =>
    Query.run op rowVariable (evalTarget op target) (evalOption key)
      ⟨eval test, (evalOption action).getD (pure .false)⟩

def operands : List Expr → List Operand
  | [] => []
  | e :: es => ⟨e.shape, eval e⟩ :: operands es

def evalTarget (op : Operator) : Target → Action Installed
  | .known t => Query.findKnown t
  | .named e => do
    let v ← eval e
    Query.findNamed op v

def evalOption : Option Expr → Option (Action Value)
  | none => none
  | some e => some (eval e)

end

theorem operands_eq_map (es : List Expr) :
    operands es = es.map fun e => ⟨e.shape, eval e⟩ := by
  induction es with
  | nil => rfl
  | cons e es ih => simp [operands, ih]

theorem evalOption_eq_map (o : Option Expr) : evalOption o = o.map eval := by cases o <;> rfl

end Expr

end KeyedTables
