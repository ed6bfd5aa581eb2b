import KeyedTables.Expr.Builtin
import KeyedTables.Form.Token
import KeyedTables.Text.Utf8

/-!
# Errors

Everything that can be refused, as causes with their data, and the one wording of each.
-/
namespace KeyedTables

open Text

/-- What is wrong with the declaration clause of a table definition. -/
inductive DeclareFault
  | repeated
  | empty
  | notProperty (found : Form)
  | notTruth (found : Form)
  | valueCount
  | unknownProperty (found : Form)

def DeclareFault.text : DeclareFault → String
  | repeated => "declare given twice"
  | empty => "empty declare"
  | notProperty found => "expected (property value), found " ++ found.text
  | notTruth found => "auto-keys expects TRUE or FALSE, found " ++ found.text
  | valueCount => "auto-keys expects exactly one value"
  | unknownProperty found => "unknown property " ++ found.text

/-- Why an expression or a construct is ill-formed. -/
inductive Misuse
  | emptyCall
  | functionName (found : Form)
  | missingThen
  | bindTarget (found : Form)
  | noBindTarget
  | missingBinding (op : Operator)
  | bindingList (op : Operator) (found : Form)
  | bindingShape (op : Operator) (found : Form)
  | rowVariable (op : Operator) (found : Form)
  | missingRowKey
  | missingTableName
  | missingColumnList (table : String)
  | columnList (table : String) (found : Form)
  | noColumns (table : String)
  | notRow (table : String) (found : Form)
  | globalAssignment (found : List Form)
  | missingModuleName
  | importClause (name : String) (found : Form)
  | moduleClause (name : String) (found : Form)

/-- The shape of the binding an operator begins with. -/
def Operator.bindingShape (op : Operator) : String :=
  if op.takesKey then "(?var table key)" else "(?var table)"

def Misuse.text : Misuse → String
  | emptyCall => "empty function call ()"
  | functionName found => "function name expected, found " ++ found.text
  | missingThen => "if: expected then after condition"
  | bindTarget found => "bind: expected a variable, found " ++ found.text
  | noBindTarget => "bind: expected a variable"
  | missingBinding op => op.name ++ ": expected (?var table) binding"
  | bindingList op found => op.name ++ ": expected (?var table) binding, found " ++ found.text
  | bindingShape op found =>
    op.name ++ ": expected " ++ op.bindingShape ++ " binding, found " ++ found.text
  | rowVariable op found => op.name ++ ": expected a row variable, found " ++ found.text
  | missingRowKey => "do-for-this-row: missing row key"
  | missingTableName => "deftable: missing table name"
  | missingColumnList table => "deftable " ++ table ++ ": missing column list"
  | columnList table found =>
    "deftable " ++ table ++ ": expected a column list, found " ++ found.text
  | noColumns table => "deftable " ++ table ++ ": at least one column is required"
  | notRow table found => "deftable " ++ table ++ ": expected a row, found " ++ found.text
  | globalAssignment found =>
    "defglobal: expected ?*name* = value, found " ++ Form.sequenceText found
  | missingModuleName => "defmodule: missing module name"
  | importClause name found => "defmodule " ++ name ++ ": malformed import " ++ found.text
  | moduleClause name found => "defmodule " ++ name ++ ": unexpected " ++ found.text

/-- What a function wanted instead of the value it found. -/
inductive Expectation
  | number
  | multifield
  | integerIndex
  | tableName
  deriving DecidableEq, Repr

def Expectation.text : Expectation → String
  | number => "a number"
  | multifield => "a multifield"
  | integerIndex => "an integer index"
  | tableName => "a table name"

/-- Which of a table's two indices is meant. -/
inductive Axis
  | column
  | row
  deriving DecidableEq, Repr

def Axis.text : Axis → String
  | column => "column"
  | row => "row"

/-- Why bytes are not a snapshot. -/
inductive SnapshotFault
  | magic
  | version (found : Nat)
  | codec
  | rawLength (found : Nat)
  | frameLength
  | payloadLength
  | truncated
  | count (found : Nat)
  | text (fault : Utf8.Fault)
  | atomTag (found : Nat)
  | moduleOrdinal (found : Nat)
  | noColumns (table : String)
  | cellCount (table : String)
  | bucketCount (table : String) (axis : Axis) (buckets limit keys : Nat)
  | trailing (bytes : Nat)

def SnapshotFault.message : SnapshotFault → String
  | magic => "invalid snapshot magic"
  | version found => "unsupported snapshot version " ++ toString found
  | codec => "unknown compression codec"
  | rawLength found => "raw length " ++ toString found ++ " too large"
  | frameLength => "snapshot length mismatch"
  | payloadLength => "decompressed length mismatch"
  | truncated => "failed to fill whole buffer"
  | count found => "count " ++ toString found ++ " exceeds remaining payload"
  | text fault => fault.text
  | atomTag found => "unknown atom tag " ++ toString found
  | moduleOrdinal found => "module ordinal " ++ toString found ++ " out of range"
  | noColumns table => "table " ++ table ++ ": no columns"
  | cellCount table => "table " ++ table ++ ": cell count exceeds payload"
  | bucketCount table axis buckets limit keys =>
    "table " ++ table ++ ": " ++ axis.text ++ " bucket count " ++ toString buckets ++ " exceeds " ++
      toString limit ++ " for " ++ toString keys ++ " keys"
  | trailing bytes => toString bytes ++ " trailing bytes"

/-- Why a payload cannot be compressed or expanded. -/
inductive CompressionFault
  | inputLength
  | capacity
  | invalidBlock
  deriving DecidableEq, Repr

def CompressionFault.text : CompressionFault → String
  | inputLength => "Compression input too long."
  | capacity => "Given size parameter is too big"
  | invalidBlock => "Decompression failed. Input invalid or too long?"

/-- Everything that can be refused. -/
inductive Error
  | duplicateColumn (table : String) (column : Atom)
  | duplicateRowKey (table : String) (key : Value)
  | rowArity (table : String) (row expected found : Nat)
  | invalidColumnName (table : String) (found : Form)
  | malformedDeclare (table : String) (fault : DeclareFault)
  | invalidCell (table : String) (found : Form)
  | cellCount (table : String) (rows columns cells : Nat)
  | unreadable (line : Nat) (fault : SyntaxFault)
  | unknownTable (op : Operator) (name : String)
  | invalidTableName (construct : String) (found : Form)
  | unknownColumn (op : Operator) (rowVariable column table : String)
  | rowVariableRebind (op : Operator) (name : String)
  | unknownFunction (name : String)
  | arity (function : String) (expected : Arity) (found : Nat)
  | invalidExpression (misuse : Misuse)
  | unknownConstruct (found : Form)
  | unknownModule (name : String)
  | tableNotFound (name : String)
  | ambiguousTable (name : String) (modules : List String)
  | noRowForKey (table : String) (key : Value)
  | noColumnForKey (table : String) (key : Value)
  | tableInUse (table : String) (busy : Nat)
  | unbound (name : Form)
  | typeMismatch (function : Builtin) (expected : Expectation) (found : Value)
  | indexOutOfRange (size : Nat) (index : Int64)
  | divideByZero (function : Builtin)
  | queryDepthExceeded (limit : Nat)
  | breakOutsideQuery
  | frameUnderflow (depth active : Nat)
  /-- An argument position that a call does not have; no call built from source text lacks one. -/
  | missingArgument (function : Builtin) (position : Nat)
  | snapshot (fault : SnapshotFault)
  | checksumMismatch
  | compression (fault : CompressionFault)

def Error.message : Error → String
  | duplicateColumn table column =>
    "deftable " ++ table ++ ": duplicate column key " ++ column.text
  | duplicateRowKey table key => "deftable " ++ table ++ ": duplicate row key " ++ key.text
  | rowArity table row expected found =>
    "deftable " ++ table ++ ": row " ++ toString row ++ " has " ++ toString found ++
      " values, expected " ++ toString expected
  | invalidColumnName table found =>
    "deftable " ++ table ++ ": column name must be a symbol, found " ++ found.text
  | malformedDeclare table fault =>
    "deftable " ++ table ++ ": malformed declare clause: " ++ fault.text
  | invalidCell table found => "deftable " ++ table ++ ": invalid cell value " ++ found.text
  | cellCount table rows columns cells =>
    "deftable " ++ table ++ ": cell count " ++ toString cells ++ " is not rows " ++ toString rows ++
      " x columns " ++ toString columns
  | unreadable line fault => "syntax error on line " ++ toString line ++ ": " ++ fault.text
  | unknownTable op name => op.name ++ ": unable to find table " ++ name
  | invalidTableName construct found =>
    construct ++ ": table name must be a symbol, found " ++ found.text
  | unknownColumn op rowVariable column table =>
    op.name ++ ": variable ?" ++ rowVariable ++ " refers to column " ++ column ++
      " which does not exist in table " ++ table
  | rowVariableRebind op name => op.name ++ ": cannot rebind table member variable ?" ++ name
  | unknownFunction name => "unknown function " ++ name
  | arity function expected found =>
    function ++ ": expected " ++ expected.text ++ " arguments, found " ++ toString found
  | invalidExpression misuse => "invalid expression: " ++ misuse.text
  | unknownConstruct found => "unknown construct " ++ found.text
  | unknownModule name => "unknown module " ++ name
  | tableNotFound name => "table " ++ name ++ " not found"
  | ambiguousTable name modules =>
    "table name " ++ name ++ " is ambiguous among modules " ++ nameList modules
  | noRowForKey table key => "table " ++ table ++ ": no row for key " ++ key.text
  | noColumnForKey table key => "table " ++ table ++ ": no column for key " ++ key.text
  | tableInUse table busy =>
    "table " ++ table ++ " is in use by " ++ toString busy ++ " active queries"
  | unbound name => "unbound variable " ++ name.text
  | typeMismatch function expected found =>
    function.name ++ ": expected " ++ expected.text ++ ", found " ++ found.typeName ++ " " ++
      found.text
  | indexOutOfRange size index =>
    "nth$: expected an index in 1..=" ++ toString size ++ ", found " ++
      String.ofList (intChars index.toInt)
  | divideByZero function => function.name ++ ": division by zero"
  | queryDepthExceeded limit => "query nesting exceeds " ++ toString limit ++ " frames"
  | breakOutsideQuery => "break used outside of a table query"
  | frameUnderflow depth active =>
    "query frame at depth " ++ toString depth ++ " does not exist (" ++ toString active ++
      " frames active)"
  | missingArgument function position =>
    function.name ++ ": missing argument " ++ toString position
  | snapshot fault => "snapshot error: " ++ fault.message
  | checksumMismatch => "snapshot checksum mismatch"
  | compression fault => "compression error: " ++ fault.text

/-- Two stages that succeed together both succeed. -/
theorem bind_eq_ok {α β : Type} {x : Except Error α} {f : α → Except Error β} {b : β}
    (h : (x >>= f) = .ok b) : ∃ a, x = .ok a ∧ f a = .ok b := by
  cases x with
  | error e => cases h
  | ok a => exact ⟨a, rfl, h⟩

/-- Of two stages that fail together one does, the second one only if the first one succeeds. -/
theorem bind_eq_error {α β : Type} {x : Except Error α} {k : α → Except Error β} {err : Error}
    (h : (x >>= k) = .error err) : x = .error err ∨ ∃ a, x = .ok a ∧ k a = .error err := by
  cases x with
  | error e =>
    cases h
    exact Or.inl rfl
  | ok a => exact Or.inr ⟨a, rfl, h⟩

end KeyedTables
