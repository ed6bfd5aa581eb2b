import KeyedTables.Dictionary
import KeyedTables.Expr.Resolution

/-!
# Environments

The state of a session: the configuration, the catalog, the bindings of variables, the frames of the
queries in progress, the text printed so far, and two flags. Evaluation changes an environment step
by step, and an error keeps what was changed before it.
-/
namespace KeyedTables

/-- How the payload of a snapshot is stored. -/
inductive Codec
  | plain
  | lz4
  deriving DecidableEq, Repr

namespace Codec

def tag : Codec → UInt8
  | plain => 0
  | lz4 => 1

def name : Codec → String
  | plain => "None"
  | lz4 => "Lz4"

def ofTag? (t : UInt8) : Option Codec :=
  if t = 0 then some plain else if t = 1 then some lz4 else none

@[simp] theorem ofTag?_tag (c : Codec) : ofTag? c.tag = some c := by cases c <;> rfl

end Codec

structure Config where
  /-- The key column of tables with automatic keys. -/
  autoKeyColumn : String
  /-- How many queries may be in progress at once. -/
  maxQueryDepth : Nat
  compression : Codec
  deriving DecidableEq, Repr

def Config.default : Config := ⟨"key", 64, .lz4⟩

/-- A query in progress, which keeps a pin on its table. -/
structure Frame where
  op : Operator
  rowVariable : String
  table : Installed
  /-- The row the query is at. -/
  row : Nat
  /-- The query is to stop at this row. -/
  aborted : Bool
  deriving DecidableEq, Repr

structure Environment where
  config : Config
  catalog : Catalog
  globals : Dictionary Value
  /-- Variables bound since evaluation began. -/
  locals : Dictionary Value
  /-- The innermost query first. -/
  frames : List Frame
  output : String
  /-- Evaluation is to stop altogether. -/
  halted : Bool
  /-- The last evaluation of a source text failed. -/
  evaluationFailed : Bool
  deriving DecidableEq, Repr

/-- A computation in an environment; a failing one keeps the environment it had reached. -/
abbrev Eval := EStateM Error Environment

/-- The computation with a given result, which leaves the environment alone. -/
def Eval.ofExcept {α : Type} : Except Error α → Eval α
  | .ok a => pure a
  | .error e => throw e

/-- The environment a computation ends in. -/
def Eval.final {α : Type} (m : Eval α) (env : Environment) : Environment :=
  match m env with
  | .ok _ env => env
  | .error _ env => env

namespace Environment

def new (config : Config) : Environment :=
  ⟨config, .initial, .empty, .empty, [], "", false, false⟩

/-- Whether sequences and scans have to stop: after a halt, or after a break of the innermost
query. -/
def interrupted (env : Environment) : Bool :=
  env.halted || (env.frames.head?.map Frame.aborted).getD false

/-- Starts a query: its table is pinned. -/
def pushFrame (env : Environment) (f : Frame) : Environment :=
  { env with frames := f :: env.frames, catalog := env.catalog.pin f.table }

/-- Ends the innermost query: its table is released. -/
def popFrame (env : Environment) : Environment :=
  match env.frames with
  | [] => env
  | f :: frames => { env with frames, catalog := env.catalog.unpin f.table }

/-- Brings the innermost query to a row. -/
def visit (env : Environment) (row : Nat) : Environment :=
  match env.frames with
  | [] => env
  | f :: frames => { env with frames := { f with row, aborted := false } :: frames }

/-- Tells the innermost query to stop. -/
def abortInnermost (env : Environment) : Environment :=
  match env.frames with
  | [] => env
  | f :: frames => { env with frames := { f with aborted := true } :: frames }

/-- Forgets what the evaluation before left behind. -/
def begin (env : Environment) : Environment :=
  { env with evaluationFailed := false, halted := false, locals := .empty }

@[simp] theorem popFrame_pushFrame (env : Environment) (f : Frame) :
    (env.pushFrame f).popFrame = env := by
  simp [pushFrame, popFrame]

@[simp] theorem catalog_abortInnermost (env : Environment) :
    env.abortInnermost.catalog = env.catalog := by
  unfold abortInnermost
  split
  · rfl
  · rfl

@[simp] theorem catalog_visit (env : Environment) (row : Nat) :
    (env.visit row).catalog = env.catalog := by
  unfold visit
  split
  · rfl
  · rfl

end Environment

end KeyedTables
