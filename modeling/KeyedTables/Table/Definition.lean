import KeyedTables.Form.Reader
import KeyedTables.Table.Basic
import KeyedTables.Text.Split

/-!
# Table definitions

A table definition is a list: a head, the table's name, possibly a comment, possibly a declaration,
the columns, and one list per row. Cells are constants, or are evaluated on the spot in source
order; what they come to is stored. With automatic keys a column in front of the declared ones
numbers the rows from one on. The first thing wrong in reading order is the error.
-/
namespace KeyedTables.Definition

/-- What stands before the rows. -/
structure Header where
  module : String
  name : String
  comment : Option String
  autoKeys : Bool
  /-- The key column of automatic keys included. -/
  columns : List Atom
  deriving Repr

/-- How many values a row is given. -/
def Header.width (h : Header) : Nat := h.columns.length - if h.autoKeys then 1 else 0

/-- Module and name of the table; an unqualified name belongs to the default module. -/
def nameOf (defaultModule : String) : List Form → Except Error ((String × String) × List Form)
  | [] => .error (.invalidExpression .missingTableName)
  | .atom (.symbol s) :: rest => .ok ((Text.splitQualified? s).getD (defaultModule, s), rest)
  | other :: _ => .error (.invalidTableName "deftable" other)

/-- The comment, if there is one. -/
def commentOf : List Form → Option String × List Form
  | .atom (.string c) :: rest => (some c, rest)
  | rest => (none, rest)

/-- One property of a declaration: whether keys are automatic. -/
def propertyOf (table : String) (p : Form) : Except Error Bool :=
  match p.list? with
  | none => .error (.malformedDeclare table (.notProperty p))
  | some [] => .error (.malformedDeclare table (.unknownProperty p))
  | some (name :: values) =>
    if name.symbol? = some "auto-keys" then
      match values with
      | [value] =>
        if value.symbol? = some "TRUE" then .ok true
        else if value.symbol? = some "FALSE" then .ok false
        else .error (.malformedDeclare table (.notTruth value))
      | _ => .error (.malformedDeclare table .valueCount)
    else .error (.malformedDeclare table (.unknownProperty p))

/-- The properties of a declaration, of which the last one counts. -/
def propertiesOf (table : String) : List Form → Bool → Except Error Bool
  | [], autoKeys => .ok autoKeys
  | p :: ps, _ =>
    match propertyOf table p with
    | .error e => .error e
    | .ok autoKeys => propertiesOf table ps autoKeys

/-- A declaration behind its head; it holds at least one property. -/
def declarationOf (table : String) : List Form → Except Error Bool
  | [] => .error (.malformedDeclare table .empty)
  | ps => propertiesOf table ps false

/-- Column names must be symbols. -/
def columnsOf (table : String) : List Form → Except Error (List Atom)
  | [] => .ok []
  | .atom (.symbol s) :: rest => (columnsOf table rest).map (.symbol s :: ·)
  | other :: _ => .error (.invalidColumnName table other)

/-- The declaration, if it has not been given before, and the columns. -/
def clausesOf (table keyColumn : String) :
    Option Bool → List Form → Except Error (Bool × List Atom × List Form)
  | _, [] => .error (.invalidExpression (.missingColumnList table))
  | declared, item :: rest =>
    match item.list? with
    | none => .error (.invalidExpression (.columnList table item))
    | some list =>
      if item.head? = some "declare" then
        match declared with
        | some _ => .error (.malformedDeclare table .repeated)
        | none =>
          match declarationOf table list.tail with
          | .error e => .error e
          | .ok autoKeys => clausesOf table keyColumn (some autoKeys) rest
      else
        let autoKeys := declared.getD false
        match columnsOf table list with
        | .error e => .error e
        | .ok named =>
          let columns := if autoKeys then .symbol keyColumn :: named else named
          if columns = [] then .error (.invalidExpression (.noColumns table))
          else .ok (autoKeys, columns, rest)

/-- The header of a definition, and the forms of its rows. -/
def headerOf (defaultModule keyColumn : String) (items : List Form) :
    Except Error (Header × List Form) :=
  match nameOf defaultModule items with
  | .error e => .error e
  | .ok ((module, name), rest) =>
    let (comment, rest) := commentOf rest
    match clausesOf name keyColumn none rest with
    | .error e => .error e
    | .ok (autoKeys, columns, rows) => .ok (⟨module, name, comment, autoKeys, columns⟩, rows)

section Cells
variable {σ : Type} (evaluate : Form → EStateM Error σ Value)

/-- The value of a cell: a constant, or what evaluation yields for a global variable or a form
marked for it. -/
def cell (table : String) : Form → EStateM Error σ Value
  | .atom a => pure (.atom a)
  | .list xs =>
    match (Form.list xs).literal? with
    | some v => pure v
    | none => throw (.invalidCell table (.list xs))
  | .globalVar g => evaluate (.globalVar g)
  | .immediate xs => evaluate (.immediate xs)
  | .var v => throw (.invalidCell table (.var v))

/-- The values of a row in order. -/
def rowCells (table : String) : List Form → EStateM Error σ (List Value)
  | [] => pure []
  | f :: fs => do
    let v ← cell evaluate table f
    let vs ← rowCells table fs
    pure (v :: vs)

/-- The cells of all rows from row number `number` on. -/
def cellsFrom (h : Header) : Nat → List Form → EStateM Error σ (List Value)
  | _, [] => pure []
  | number, item :: rest =>
    match item.list? with
    | none => throw (.invalidExpression (.notRow h.name item))
    | some values =>
      if values.length ≠ h.width then
        throw (.rowArity h.name number h.width values.length)
      else do
        let vs ← rowCells evaluate h.name values
        let key := if h.autoKeys then [Value.integer (Int64.ofNat number)] else []
        let others ← cellsFrom h (number + 1) rest
        pure (key ++ vs ++ others)

/-- What a definition says, its cells evaluated. -/
def parts (defaultModule keyColumn : String) (form : List Form) : EStateM Error σ Table.Parts :=
  match headerOf defaultModule keyColumn form.tail with
  | .error e => throw e
  | .ok (h, rows) => do
    let cells ← cellsFrom evaluate h 1 rows
    pure ⟨h.name, h.module, h.comment, h.autoKeys, h.columns, cells.toArray⟩

/-- The table a definition builds, the definition being given with its head. -/
def table (defaultModule keyColumn : String) (form : List Form) : EStateM Error σ Table := do
  let p ← parts evaluate defaultModule keyColumn form
  match Table.build p with
  | .error e => throw e
  | .ok t => pure t

end Cells

end KeyedTables.Definition
