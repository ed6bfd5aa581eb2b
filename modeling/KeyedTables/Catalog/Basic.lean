import KeyedTables.Dictionary
import KeyedTables.Table.Basic

/-!
# The catalog

Tables live in modules, in the order in which they were defined. Every installation of a table has
a serial number of its own, so that a table defined anew is told apart from the one it replaces. A
table is busy while it is pinned, and a busy table cannot be replaced.
-/
namespace KeyedTables

/-- A table as installed in a catalog. -/
structure Installed where
  serial : Nat
  table : Table
  deriving DecidableEq, Repr

structure Module where
  name : String
  imports : List String
  /-- The tables by name. -/
  tables : Dictionary Installed
  /-- The names of the tables in order of definition. -/
  order : List String
  deriving DecidableEq, Repr

namespace Module

/-- A module without tables. -/
def new (name : String) (imports : List String) : Module := ⟨name, imports, .empty, []⟩

/-- The table of a name among a module's own. -/
def table? (m : Module) (name : String) : Option Installed := m.tables.get? name

/-- The tables in order of definition. -/
def listing (m : Module) : List Installed := m.order.filterMap m.table?

/-- Puts a table in the place of the one of its name, or else behind all others. -/
def put (m : Module) (t : Installed) : Module :=
  { m with
    tables := m.tables.set t.table.name t
    order := if (m.table? t.table.name).isSome then m.order else m.order ++ [t.table.name] }

/-- Takes away the table of a name. -/
def drop (m : Module) (name : String) : Module :=
  { m with tables := m.tables.erase name, order := m.order.filter (· ≠ name) }

/-- Counts the serial numbers of all tables from a number on. -/
def renumber (m : Module) (base : Nat) : Module :=
  { m with tables := m.tables.map fun t => { t with serial := base + t.serial } }

end Module

structure Catalog where
  /-- In order of definition. -/
  modules : List Module
  /-- The module in which names are looked up first. -/
  current : String
  nextSerial : Nat
  /-- The serial number of each pin held on a table, the latest first. -/
  pins : List Nat
  deriving DecidableEq, Repr

namespace Catalog

/-- The module that is there from the start. -/
def mainModule : String := "MAIN"

/-- The catalog with one empty module. -/
def initial : Catalog := ⟨[.new mainModule []], mainModule, 0, []⟩

instance : Inhabited Catalog := ⟨initial⟩

/-- How many pins are held on a table. -/
def busy (c : Catalog) (t : Installed) : Nat := c.pins.count t.serial

def pin (c : Catalog) (t : Installed) : Catalog := { c with pins := t.serial :: c.pins }

/-- Releases one pin of a table. -/
def unpin (c : Catalog) (t : Installed) : Catalog := { c with pins := c.pins.erase t.serial }

@[simp] theorem unpin_pin (c : Catalog) (t : Installed) : (c.pin t).unpin t = c := by
  simp [pin, unpin]

theorem busy_pin (c : Catalog) (t u : Installed) :
    (c.pin t).busy u = c.busy u + if t.serial = u.serial then 1 else 0 := by
  simp [busy, pin, List.count_cons]

def module? (c : Catalog) (name : String) : Option Module := c.modules.find? (·.name = name)

/-- Changes the module of a name. -/
def updateModule (c : Catalog) (name : String) (f : Module → Module) : Catalog :=
  { c with modules := c.modules.map fun m => if m.name = name then f m else m }

def setCurrent (c : Catalog) (name : String) : Except Error Catalog :=
  if (c.module? name).isSome then .ok { c with current := name } else .error (.unknownModule name)

/-- Adds a module, or gives an existing one other imports, and makes it the current one. All
imported modules must exist. -/
def defineModule (c : Catalog) (name : String) (imports : List String) : Except Error Catalog :=
  match imports.find? fun i => (c.module? i).isNone with
  | some missing => .error (.unknownModule missing)
  | none =>
    let c' := { c with current := name }
    if (c.module? name).isSome then .ok (c'.updateModule name fun m => { m with imports })
    else .ok { c' with modules := c.modules ++ [.new name imports] }

/-- All tables, module by module. -/
def tables (c : Catalog) : List Installed := c.modules.flatMap Module.listing

/-- The number of tables by the sizes of the dictionaries. -/
def tableCount (c : Catalog) : Nat := c.modules.foldr (fun m n => m.tables.size + n) 0

def firstBusy? (c : Catalog) : Option Installed := c.tables.find? (0 < c.busy ·)

/-- The refusal to touch a busy table. -/
def inUse (c : Catalog) (t : Installed) : Error := .tableInUse t.table.qualifiedName (c.busy t)

/-- Puts a table into the module it belongs to: in the place of the table of its name, or else
behind all others. -/
def install (c : Catalog) (table : Table) : Except Error (Catalog × Installed) :=
  match c.module? table.module with
  | none => .error (.unknownModule table.module)
  | some m =>
    let new : Installed := ⟨c.nextSerial, table⟩
    let c' := { c with nextSerial := c.nextSerial + 1 }
    match m.table? table.name with
    | some old =>
      if 0 < c.busy old then .error (c.inUse old)
      else .ok (c'.updateModule m.name (·.put new), new)
    | none => .ok (c'.updateModule m.name (·.put new), new)

/-- A catalog in the place of another one. Its tables are new ones, and pins held on tables of the
other are held on. -/
def succeeding (c old : Catalog) : Catalog :=
  { c with
    modules := c.modules.map (·.renumber old.nextSerial)
    nextSerial := old.nextSerial + c.nextSerial
    pins := old.pins }

end Catalog

end KeyedTables
