import KeyedTables.Table.Definition
import KeyedTables.Evaluation

/-!
# Constructs

Source text at the top level. A construct defines a table, global variables or a module; any other
text is an expression to evaluate. Every construct and every expression starts with a clean slate of
local variables and flags, and an error leaves the rest of the environment as far as it had come.
-/
namespace KeyedTables.Construct

def cleanSlate : Eval Unit := modify Environment.begin

/-- The expression a form stands for in the present catalog. -/
def resolve (f : Form) : Eval Expr := fun env =>
  match Expr.ofForm env.catalog [] f with
  | .ok e => .ok e env
  | .error e => .error e env

def evalForm (f : Form) : Eval Value := do
  let e ← resolve f
  e.eval.run

/-- The value of a cell that a definition leaves to evaluation. -/
def evalCell (f : Form) : Eval Value := do
  cleanSlate
  evalForm f

def install (t : Table) : Eval Unit := fun env =>
  match env.catalog.install t with
  | .ok (catalog, _) => .ok () { env with catalog }
  | .error e => .error e env

/-- Defines a table; it is installed when all of it is in order. -/
def defineTable (items : List Form) : Eval Unit := do
  let env ← get
  let t ← Definition.table evalCell env.catalog.current env.config.autoKeyColumn items
  install t

def setGlobal (name : String) (v : Value) : Eval Unit :=
  modify fun env => { env with globals := env.globals.set name v }

/-- Assigns global variables one after another: a variable, an equals sign, an expression. -/
def assignGlobals : List Form → Eval Unit
  | [] => pure ()
  | [f] => throw (.invalidExpression (.globalAssignment [f]))
  | [f, g] => throw (.invalidExpression (.globalAssignment [f, g]))
  | f :: g :: value :: rest =>
    match f, g.symbol? with
    | .globalVar name, some "=" => do
      cleanSlate
      let v ← evalForm value
      setGlobal name v
      assignGlobals rest
    | _, _ => throw (.invalidExpression (.globalAssignment (f :: g :: value :: rest)))

/-- Defines global variables; a symbol in front of the assignments has no meaning. -/
def defineGlobals : List Form → Eval Unit
  | .atom (.symbol _) :: rest => assignGlobals rest
  | rest => assignGlobals rest

/-- The modules that the clauses of a module definition import. Comments and exports are passed
over. -/
def importsOf (name : String) : List Form → Except Error (List String)
  | [] => .ok []
  | clause :: rest =>
    match clause with
    | .atom (.string _) => importsOf name rest
    | .list items =>
      match clause.head? with
      | some "import" =>
        match items[1]?.bind Form.symbol? with
        | some m => (importsOf name rest).map (m :: ·)
        | none => .error (.invalidExpression (.importClause name clause))
      | some "export" => importsOf name rest
      | _ => .error (.invalidExpression (.moduleClause name clause))
    | _ => .error (.invalidExpression (.moduleClause name clause))

/-- Defines a module, or changes the imports of one, and makes it the current module. -/
def defineModule (items : List Form) : Eval Unit := fun env =>
  match items[1]?.bind Form.symbol? with
  | none => .error (.invalidExpression .missingModuleName) env
  | some name =>
    match importsOf name (items.drop 2) with
    | .error e => .error e env
    | .ok imports =>
      match env.catalog.defineModule name imports with
      | .ok catalog => .ok () { env with catalog }
      | .error e => .error e env

/-- Carries out one construct. -/
def run (f : Form) : Eval Unit := do
  cleanSlate
  match f with
  | .list items =>
    match f.head? with
    | some "deftable" => defineTable items
    | some "defglobal" => defineGlobals items.tail
    | some "defmodule" => defineModule items
    | some other => throw (.unknownConstruct (.atom (.symbol other)))
    | none => throw (.unknownConstruct f)
  | _ => throw (.unknownConstruct f)

def runAll : List Form → Eval Unit
  | [] => pure ()
  | f :: fs => do
    run f
    runAll fs

end KeyedTables.Construct

namespace KeyedTables.Environment

open Construct

/-- Carries out all constructs of a text up to the first that fails; the value is their number. -/
def load (source : String) : Eval Nat := do
  let forms ← Eval.ofExcept (Form.readAll source)
  runAll forms
  pure forms.length

/-- Carries out the one construct of a text. -/
def build (source : String) : Eval Unit := do
  let f ← Eval.ofExcept (Form.readOne source)
  run f

def evalSource (source : String) : Eval Value := do
  cleanSlate
  let f ← Eval.ofExcept (Form.readOne source)
  evalForm f

/-- Evaluates the one expression of a text, and keeps in mind whether that failed. -/
def eval (source : String) : Eval Value := fun env =>
  match evalSource source env with
  | .ok v env => .ok v env
  | .error e env => .error e { env with evaluationFailed := true }

def findTable (name : String) : Eval Table := do
  let t ← (Query.findTable name).run
  pure t.table

def lookup (table : String) (rowKey columnKey : Value) : Eval Value := do
  let t ← findTable table
  Eval.ofExcept (t.lookup rowKey columnKey)

def undefineTable (name : String) : Eval Unit := do
  let _ ← (Call.removeTable name).run
  pure ()

def setModule (name : String) : Eval Unit := fun env =>
  match env.catalog.setCurrent name with
  | .ok catalog => .ok () { env with catalog }
  | .error e => .error e env

/-- The qualified names of all tables. -/
def tableNames (env : Environment) : List String :=
  env.catalog.tables.map (·.table.qualifiedName)

/-- Takes the output printed so far. -/
def takeOutput (env : Environment) : String × Environment := (env.output, { env with output := "" })

/-- Holds a table from outside of all queries. -/
def pin (env : Environment) (t : Installed) : Environment :=
  { env with catalog := env.catalog.pin t }

def unpin (env : Environment) (t : Installed) : Environment :=
  { env with catalog := env.catalog.unpin t }

end KeyedTables.Environment
