/-!
# Function and operator names

The functions an expression may call, the operators that query a table, and how many arguments each
takes.
-/
namespace KeyedTables

/-- How many arguments are allowed. -/
structure Arity where
  least : Nat
  most : Option Nat
  deriving DecidableEq, Repr

namespace Arity

def exactly (n : Nat) : Arity := ⟨n, some n⟩
def atLeast (n : Nat) : Arity := ⟨n, none⟩

def admits (a : Arity) (n : Nat) : Bool := a.least ≤ n && a.most.all (n ≤ ·)

def text (a : Arity) : String :=
  match a.most with
  | some m => if m = a.least then toString m else toString a.least ++ ".." ++ toString m
  | none => "at least " ++ toString a.least

theorem admits_iff {a : Arity} {n : Nat} :
    a.admits n = true ↔ a.least ≤ n ∧ ∀ m, a.most = some m → n ≤ m := by
  cases h : a.most <;> simp [admits, h]

theorem admits_exactly {m n : Nat} : (exactly m).admits n = true ↔ n = m := by
  simp only [admits_iff, exactly, Option.some.injEq, forall_eq']
  omega

theorem admits_atLeast {m n : Nat} : (atLeast m).admits n = true ↔ m ≤ n := by
  simp [admits_iff, atLeast]

end Arity

inductive Builtin
  | add | sub | mul | div
  | numEq | numNe | gt | ge | lt | le
  | eq | neq
  | and | or | not
  | progn | ifThen | bind
  | createField | fieldLength | fieldNth
  | strCat | symCat
  | printout
  | break | halt
  | lookup | containsKey | tableColumns | tableRowCount | undefineTable
  deriving DecidableEq, Repr

namespace Builtin

def all : List Builtin :=
  [add, sub, mul, div, numEq, numNe, gt, ge, lt, le, eq, neq, and, or, not, progn, ifThen, bind,
    createField, fieldLength, fieldNth, strCat, symCat, printout, .break, halt, lookup, containsKey,
    tableColumns, tableRowCount, undefineTable]

def name : Builtin → String
  | add => "+" | sub => "-" | mul => "*" | div => "/"
  | numEq => "=" | numNe => "<>" | gt => ">" | ge => ">=" | lt => "<" | le => "<="
  | eq => "eq" | neq => "neq"
  | and => "and" | or => "or" | not => "not"
  | progn => "progn" | ifThen => "if" | bind => "bind"
  | createField => "create$" | fieldLength => "length$" | fieldNth => "nth$"
  | strCat => "str-cat" | symCat => "sym-cat"
  | printout => "printout"
  | .break => "break" | halt => "halt"
  | lookup => "lookup" | containsKey => "contains-key"
  | tableColumns => "table-columns" | tableRowCount => "table-row-count"
  | undefineTable => "undeftable"

def ofName? (s : String) : Option Builtin := all.find? (·.name = s)

def arity : Builtin → Arity
  | progn | createField | strCat | symCat => .atLeast 0
  | add | sub | mul | div | numEq | numNe | gt | ge | lt | le | eq | neq | and | or | ifThen
  | printout => .atLeast 1
  | bind => .atLeast 2
  | .break | halt => .exactly 0
  | not | fieldLength | tableColumns | tableRowCount | undefineTable => .exactly 1
  | fieldNth | containsKey => .exactly 2
  | lookup => .exactly 3

theorem mem_all (b : Builtin) : b ∈ all := by cases b <;> decide

theorem name_injective {a b : Builtin} (h : a.name = b.name) : a = b := by
  cases a <;> cases b <;> simp_all [name]

theorem name_of_ofName? {s : String} {b : Builtin} (h : ofName? s = some b) : b.name = s := by
  simpa using List.find?_some h

@[simp] theorem ofName?_name (b : Builtin) : ofName? b.name = some b := by
  cases h : ofName? b.name with
  | none => simpa using List.find?_eq_none.1 h b (mem_all b)
  | some c => rw [name_injective (name_of_ofName? h)]

end Builtin

/-- The operators that evaluate expressions over the rows of a table. -/
inductive Operator
  | rowExists
  | findRow
  | doForRow
  | doForAllRows
  | doForThisRow
  deriving DecidableEq, Repr

namespace Operator

def all : List Operator := [rowExists, findRow, doForRow, doForAllRows, doForThisRow]

def name : Operator → String
  | rowExists => "row-exists?"
  | findRow => "find-row"
  | doForRow => "do-for-row"
  | doForAllRows => "do-for-all-rows"
  | doForThisRow => "do-for-this-row"

def ofName? (s : String) : Option Operator := all.find? (·.name = s)

/-- Whether an action follows the test; two operators only report a row. -/
def hasAction : Operator → Bool
  | rowExists | findRow => false
  | _ => true

/-- Whether the row is found by its key instead of by a scan. -/
def takesKey (op : Operator) : Bool := op = doForThisRow

theorem mem_all (op : Operator) : op ∈ all := by cases op <;> decide

theorem name_injective {a b : Operator} (h : a.name = b.name) : a = b := by
  cases a <;> cases b <;> simp_all [name]

theorem name_of_ofName? {s : String} {op : Operator} (h : ofName? s = some op) : op.name = s := by
  simpa using List.find?_some h

@[simp] theorem ofName?_name (op : Operator) : ofName? op.name = some op := by
  cases h : ofName? op.name with
  | none => simpa using List.find?_eq_none.1 h op (mem_all op)
  | some c => rw [name_injective (name_of_ofName? h)]

end Operator

end KeyedTables
