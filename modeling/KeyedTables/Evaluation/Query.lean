import KeyedTables.Evaluation.Action

/-!
# Queries

A query goes over the rows of a table in order, or takes one row by its key, and evaluates a test
and possibly an action at each row it visits. While it lasts it keeps a frame, where the expressions
find its current row, and a pin on its table. `halt` and `break` end the scan after the current row
without making it fail.
-/
namespace KeyedTables.Query

/-- Acts inside a new frame, which is gone afterwards whatever came of it. -/
def inFrame {α : Type} (f : Frame) (body : Action α) : Action α :=
  .change (·.pushFrame f) (body.ending Environment.popFrame)

/-- The frame `depth` queries further out than the innermost. -/
def frame (depth : Nat) : Action Frame := do
  let env ← .environment
  match env.frames[depth]? with
  | some f => pure f
  | none => .fail (.frameUnderflow depth env.frames.length)

/-- The key of the current row of a frame. -/
def rowKey (depth : Nat) : Action Value := do
  let f ← frame depth
  match f.table.table.rowKey? f.row with
  | some v => pure v
  | none => .fail (.frameUnderflow depth (← .environment).frames.length)

/-- The ordinal of a column in the table of a frame, where it is not known beforehand. -/
def columnOrdinal (f : Frame) (key : Atom) (ordinal : Option Nat) : Except Error Nat :=
  match ordinal with
  | some i => .ok i
  | none =>
    match f.table.table.columnOrdinal? (.atom key) with
    | some i => .ok i
    | none => .error (.unknownColumn f.op f.rowVariable key.text f.table.table.name)

/-- The cell in a column of the current row of a frame. -/
def column (depth : Nat) (key : Atom) (ordinal : Option Nat) : Action Value := do
  let f ← frame depth
  let col ← .ofExcept (columnOrdinal f key ordinal)
  match f.table.table.cell? f.row col with
  | some v => pure v
  | none => .fail (.noColumnForKey f.table.table.name (.atom key))

/-- `break`: the innermost query stops after its current row. -/
def abort : Action Value := do
  let env ← .environment
  if env.frames.isEmpty then .fail .breakOutsideQuery
  else do
    .update Environment.abortInnermost
    pure .false

/-- The table a name means at this moment. -/
def findTable (name : String) : Action Installed := do
  let env ← .environment
  .ofExcept (env.catalog.find name)

/-- A table known beforehand, provided it is still the one its name means. -/
def findKnown (t : Installed) : Action Installed := do
  let env ← .environment
  match env.catalog.find t.table.qualifiedName with
  | .ok current =>
    if current.serial = t.serial then pure t
    else .fail (.tableNotFound t.table.qualifiedName)
  | .error _ => .fail (.tableNotFound t.table.qualifiedName)

/-- The table a value names. -/
def findNamed (op : Operator) (v : Value) : Action Installed :=
  match v.lexeme? with
  | some name => findTable name
  | none => .fail (.invalidTableName op.name (.ofValue v))

/-- What is done at a row: a test, and an action if the test holds. -/
structure Body where
  test : Action Value
  action : Action Value

/-- What an operator does at a row that passed the test: it ends with a value, or goes on having
computed one. -/
inductive Step
  | done (v : Value)
  | more (v : Value)

def onMatch (op : Operator) (action : Action Value) : Action Step :=
  match op with
  | .rowExists => pure (.done (.boolean true))
  | .findRow => do return .done (← rowKey 0)
  | .doForRow | .doForThisRow => do return .done (← action)
  | .doForAllRows => do return .more (← action)

/-- Evaluates the test at a row, and tells whether the row is to be acted upon. -/
def testRow (test : Action Value) (row : Nat) : Action Bool := do
  .update (·.visit row)
  let v ← test
  return v.isTrue && !(← .environment).interrupted

/-- Scans rows in the given order, `last` being the value of the last action. -/
def scan (op : Operator) (body : Body) : List Nat → Value → Action Value
  | [], last => pure last
  | row :: rows, last => do
    if ← testRow body.test row then
      match ← onMatch op body.action with
      | .done v => pure v
      | .more v => if (← .environment).interrupted then pure v else scan op body rows v
    else if (← .environment).interrupted then pure last
    else scan op body rows last

/-- Takes one row. -/
def visitRow (body : Body) (row : Nat) : Action Value := do
  if ← testRow body.test row then body.action else pure .false

/-- The row at which a query starts; with a key, the row of that key. -/
def startRow (op : Operator) (t : Table) (key : Option (Action Value)) : Action Nat :=
  match op, key with
  | .doForThisRow, some key => do
    let k ← key
    match t.rowOrdinal? k with
    | some row => pure row
    | none => .fail (.noRowForKey t.name k)
  | .doForThisRow, none => .fail (.invalidExpression .missingRowKey)
  | _, _ => pure 0

/-- What a query does inside its frame: it visits the rows of its table, or only the one it starts
at. -/
def visits (op : Operator) (t : Table) (start : Nat) (body : Body) : Action Value :=
  match op with
  | .doForThisRow => visitRow body start
  | _ => scan op body (List.range t.rowCount) .false

/-- Runs a query. Table and key are evaluated outside its frame, the table first. -/
def run (op : Operator) (rowVariable : String) (target : Action Installed)
    (key : Option (Action Value)) (body : Body) : Action Value := do
  let t ← target
  let env ← .environment
  if env.config.maxQueryDepth ≤ env.frames.length then
    .fail (.queryDepthExceeded env.config.maxQueryDepth)
  else do
    let start ← startRow op t.table key
    inFrame ⟨op, rowVariable, t, start, false⟩ (visits op t.table start body)

end KeyedTables.Query
