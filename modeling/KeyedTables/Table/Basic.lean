import KeyedTables.Error
import KeyedTables.Table.Index

/-!
# Tables

A table has a list of column keys and its cells, row by row; the first cell of a row is the row's
key. Two indices lead from keys to ordinals. A table is built whole or not at all: all columns must
differ, and so must all row keys.
-/
namespace KeyedTables

/-- What a table is built from. -/
structure Table.Parts where
  name : String
  module : String
  comment : Option String
  /-- The first column was made up, and numbers the rows. -/
  autoKeys : Bool
  columns : List Atom
  /-- Row by row. -/
  cells : Array Value
  deriving DecidableEq, Repr

namespace Table

namespace Parts

def columnCount (p : Parts) : Nat := p.columns.length

/-- As many rows as the cells fill; no columns, no rows. -/
def rowCount (p : Parts) : Nat := p.cells.size / p.columnCount

/-- The column key at an ordinal. -/
def column? (p : Parts) (col : Nat) : Option Atom := p.columns[col]?

/-- The cell at which a row begins. -/
def rowKeyAt (p : Parts) (row : Nat) : Option Value := p.cells[row * p.columnCount]?

end Parts

/-- Adds keys with their ordinals one by one; the first key already there is the error. -/
def indexKeys {κ : Type} [Key κ] (probe : κ → Value) (keyAt : Nat → Option κ) :
    List (κ × Nat) → Index → Except κ Index
  | [], index => .ok index
  | (key, ordinal) :: rest, index =>
    match index.insertNew keyAt (probe key) ordinal with
    | .ok index => indexKeys probe keyAt rest index
    | .error _ => .error key

/-- The row keys with their ordinals. -/
def Parts.rowKeys (p : Parts) : List (Value × Nat) :=
  (List.range p.rowCount).filterMap fun row => (p.rowKeyAt row).map (·, row)

/-- The indices of columns and rows, with the given numbers of buckets. Two equal columns or two
equal row keys are refused, and so are cells that fill no whole number of rows. -/
def Parts.indices (p : Parts) (columnBuckets rowBuckets : Nat) : Except Error (Index × Index) :=
  if p.rowCount * p.columnCount ≠ p.cells.size then
    .error (.cellCount p.name p.rowCount p.columnCount p.cells.size)
  else
    match indexKeys .atom p.column? p.columns.zipIdx (.withBuckets columnBuckets) with
    | .error column => .error (.duplicateColumn p.name column)
    | .ok columnIndex =>
      match indexKeys id p.rowKeyAt p.rowKeys (.withBuckets rowBuckets) with
      | .error key => .error (.duplicateRowKey p.name key)
      | .ok rowIndex => .ok (columnIndex, rowIndex)

end Table

/-- Parts and their indices; there is no table whose parts could not be indexed. -/
structure Table extends Table.Parts where
  columnIndex : Index
  rowIndex : Index
  indexed : ∃ columnBuckets rowBuckets,
    toParts.indices columnBuckets rowBuckets = .ok (columnIndex, rowIndex)
  deriving DecidableEq, Repr

namespace Table

/-- Builds a table whose indices have the given numbers of buckets. -/
def buildWith (p : Parts) (columnBuckets rowBuckets : Nat) : Except Error Table :=
  match h : p.indices columnBuckets rowBuckets with
  | .error e => .error e
  | .ok (columnIndex, rowIndex) =>
    .ok { p with columnIndex, rowIndex, indexed := ⟨columnBuckets, rowBuckets, h⟩ }

/-- Builds a table with as many buckets as its keys call for. -/
def build (p : Parts) : Except Error Table :=
  buildWith p (bucketCount p.columnCount) (bucketCount p.rowCount)

def qualifiedName (t : Table) : String := t.module ++ "::" ++ t.name

/-- A cell by ordinals; none past the last row or the last column. -/
def cell? (t : Table) (row col : Nat) : Option Value :=
  if row < t.rowCount ∧ col < t.columnCount then t.cells[row * t.columnCount + col]? else none

/-- The cells of a row. -/
def row? (t : Table) (row : Nat) : Option (List Value) :=
  let n := t.columnCount
  if 0 < n ∧ row * n + n ≤ t.cells.size then
    some (t.cells.extract (row * n) (row * n + n)).toList
  else none

def rowKey? (t : Table) (row : Nat) : Option Value := t.cell? row 0

def columnOrdinal? (t : Table) (key : Value) : Option Nat :=
  t.columnIndex.find? t.toParts.column? key

def rowOrdinal? (t : Table) (key : Value) : Option Nat :=
  t.rowIndex.find? t.toParts.rowKeyAt key

def containsKey (t : Table) (key : Value) : Bool := (t.rowOrdinal? key).isSome

/-- The cell at a row key and a column key; a missing row is reported before a missing column. -/
def lookup (t : Table) (rowKey columnKey : Value) : Except Error Value :=
  match t.rowOrdinal? rowKey with
  | none => .error (.noRowForKey t.name rowKey)
  | some row =>
    match t.columnOrdinal? columnKey with
    | none => .error (.noColumnForKey t.name columnKey)
    | some col =>
      match t.cell? row col with
      | none => .error (.noRowForKey t.name rowKey)
      | some v => .ok v

/-- A clause of a definition, on a line of its own. -/
def clause (items : List (List Char)) : List Char :=
  "\n   (".toList ++ [' '].intercalate items ++ [')']

/-- The definition a table could be read from. The made-up column of a table with automatic keys is
left out. -/
def chars (t : Table) : List Char :=
  let skip := if t.autoKeys then 1 else 0
  let comment := match t.comment with
    | some c => ' ' :: Text.quote c.toList
    | none => []
  let declare := if t.autoKeys then "\n   (declare (auto-keys TRUE))".toList else []
  let rows := (List.range t.rowCount).filterMap t.row?
  "(deftable ".toList ++ t.qualifiedName.toList ++ comment ++ declare ++
    clause ((t.columns.drop skip).map Atom.chars) ++
    (rows.flatMap fun row => clause ((row.drop skip).map Value.chars)) ++ [')']

def text (t : Table) : String := String.ofList t.chars

end Table

end KeyedTables
