import KeyedTables.Catalog.Basic

/-!
# The payload of a snapshot

A catalog as bytes. Counts and lengths take four bytes, texts follow their length, atoms and values
a tag that tells their kind. First comes the name of the current module, then the modules with their
imports, then the tables with the number of their module, the numbers of their buckets, columns and
cells. Reading checks every count against the bytes that are left before it acts upon it, and takes
all bytes or fails.
-/
namespace KeyedTables.Payload

def word (n : Nat) : List UInt8 := Bytes.ofNat 4 n

def textBytes (s : String) : List UInt8 :=
  let bytes := Utf8.encode s.toList
  word bytes.length ++ bytes

def atomBytes : Atom → List UInt8
  | .symbol s => 0 :: textBytes s
  | .string s => 1 :: textBytes s
  | .integer i => 2 :: Bytes.ofNat 8 i.toUInt64.toNat
  | .float x => 3 :: Bytes.ofNat 8 x.bits.toNat

def valueBytes : Value → List UInt8
  | .atom a => atomBytes a
  | .multifield xs => 4 :: (word xs.length ++ xs.flatMap atomBytes)

def moduleBytes (m : Module) : List UInt8 :=
  textBytes m.name ++ word m.imports.length ++ m.imports.flatMap textBytes

def commentBytes : Option String → List UInt8
  | some c => 1 :: textBytes c
  | none => [0]

/-- A table, its module being given by number. -/
def tableBytes (ordinal : Nat) (t : Table) : List UInt8 :=
  word ordinal ++ textBytes t.name ++ commentBytes t.comment ++ [if t.autoKeys then 1 else 0] ++
    word t.columnCount ++ word t.rowCount ++
    word t.columnIndex.bucketCount ++ word t.rowIndex.bucketCount ++
    t.columns.flatMap atomBytes ++ t.cells.toList.flatMap valueBytes

/-- The tables one after another; each belongs to one of the modules. -/
def tablesBytes (names : List String) : List Installed → Except Error (List UInt8)
  | [] => .ok []
  | t :: ts =>
    match names.idxOf? t.table.module with
    | none => .error (.unknownModule t.table.module)
    | some ordinal => (tablesBytes names ts).map (tableBytes ordinal t.table ++ ·)

def encode (c : Catalog) : Except Error (List UInt8) :=
  (tablesBytes (c.modules.map Module.name) c.tables).map fun tables =>
    textBytes c.current ++ word c.modules.length ++ c.modules.flatMap moduleBytes ++
      word c.tables.length ++ tables

/-- A computation that takes bytes from the front of the input. -/
abbrev Decoder (α : Type) := StateT (List UInt8) (Except Error) α

namespace Decoder

def fail {α : Type} (fault : SnapshotFault) : Decoder α := fun _ => .error (.snapshot fault)

/-- What is left of the input. -/
def rest : Decoder (List UInt8) := fun input => .ok (input, input)

/-- Takes exactly `n` bytes. -/
def take (n : Nat) : Decoder (List UInt8) := fun input =>
  match Bytes.split? n input with
  | some r => .ok r
  | none => .error (.snapshot .truncated)

def byte : Decoder UInt8 := fun input =>
  match input with
  | [] => .error (.snapshot .truncated)
  | b :: input => .ok (b, input)

def word : Decoder Nat := do return Bytes.toNat (← take 4)

def doubleWord : Decoder UInt64 := do return UInt64.ofNat (Bytes.toNat (← take 8))

/-- A count of items that take `width` bytes each at the least. -/
def count (width : Nat) : Decoder Nat := do
  let n ← word
  if Bytes.atLeast (n * width) (← rest) then pure n else fail (.count n)

section Repetition
variable {α : Type}

/-- `n` items, one after another, behind those read before, which stand last first. -/
def collect (item : Decoder α) :
    Nat → List α → List UInt8 → Except Error (List α × List UInt8)
  | 0, before, input => .ok (before.reverse, input)
  | n + 1, before, input =>
    match item input with
    | .error e => .error e
    | .ok (x, input) => collect item n (x :: before) input

/-- `n` items, one after another. -/
def times (item : Decoder α) (n : Nat) : Decoder (List α) := collect item n []

theorem collect_eq (item : Decoder α) (n : Nat) (before : List α) (input : List UInt8) :
    collect item n before input =
      (times item n input).map fun r => (before.reverse ++ r.1, r.2) := by
  induction n generalizing before input with
  | zero => simp [times, collect, Except.map]
  | succ n ih =>
    simp only [times, collect]
    cases h : item input with
    | error e => rfl
    | ok r =>
      simp only [ih (r.1 :: before) r.2, ih [r.1] r.2]
      cases times item n r.2 <;> simp [Except.map]

theorem times_zero (item : Decoder α) (input : List UInt8) :
    times item 0 input = .ok ([], input) := rfl

/-- The first item, and the others behind it. -/
theorem times_succ (item : Decoder α) (n : Nat) (input : List UInt8) :
    times item (n + 1) input =
      match item input with
      | .error e => .error e
      | .ok (x, input) => (times item n input).map fun r => (x :: r.1, r.2) := by
  simp only [times, collect]
  cases item input with
  | error e => rfl
  | ok r => exact collect_eq item n [r.1] r.2

end Repetition

def text : Decoder String := do
  let n ← count 1
  match Utf8.decode (← take n) with
  | .ok cs => pure (String.ofList cs)
  | .error fault => fail (.text fault)

def atomOf (tag : UInt8) : Decoder Atom :=
  if tag = 0 then do return .symbol (← text)
  else if tag = 1 then do return .string (← text)
  else if tag = 2 then do return .integer (← doubleWord).toInt64
  else if tag = 3 then do return .float ⟨← doubleWord⟩
  else fail (.atomTag tag.toNat)

def atom : Decoder Atom := do atomOf (← byte)

def value : Decoder Value := do
  let tag ← byte
  if tag = 4 then do
    let n ← count 1
    return .multifield (← times atom n)
  else do return .atom (← atomOf tag)

/-- The name of a module and what it imports. -/
def module : Decoder (String × List String) := do
  let name ← text
  let n ← count 4
  return (name, ← times text n)

def comment : Decoder (Option String) := do
  if (← byte) = 0 then return none else return some (← text)

/-- The greatest number of buckets allowed for a number of keys. -/
def bucketLimit (keys : Nat) : Nat := bucketCount keys + keys

def checkBuckets (table : String) (axis : Axis) (buckets keys : Nat) : Decoder Unit :=
  if bucketLimit keys < buckets then fail (.bucketCount table axis buckets (bucketLimit keys) keys)
  else pure ()

/-- What a table is built from: its parts and the numbers of buckets of its two indices. -/
structure TableRecord where
  parts : Table.Parts
  columnBuckets : Nat
  rowBuckets : Nat

/-- A table, its module being one of the given names. -/
def table (names : List String) : Decoder TableRecord := do
  let ordinal ← word
  match names[ordinal]? with
  | none => fail (.moduleOrdinal ordinal)
  | some owner => do
    let name ← text
    let comment ← comment
    let autoKeys ← byte
    let columnCount ← count 1
    let rowCount ← word
    let columnBuckets ← word
    let rowBuckets ← word
    if columnCount = 0 then fail (.noColumns name)
    else if !Bytes.atLeast (rowCount * columnCount) (← rest) then fail (.cellCount name)
    else do
      checkBuckets name .column columnBuckets columnCount
      checkBuckets name .row rowBuckets rowCount
      let columns ← times atom columnCount
      let cells ← times value (rowCount * columnCount)
      return ⟨⟨name, owner, comment, autoKeys ≠ 0, columns, cells.toArray⟩, columnBuckets,
        rowBuckets⟩

/-- Goes on with a result that does not depend on the input. -/
def ofExcept {α : Type} : Except Error α → Decoder α
  | .ok a => pure a
  | .error e => throw e

/-- `n` tables, each installed before the next one is read. -/
def tables (names : List String) : Nat → Catalog → Decoder Catalog
  | 0, c => pure c
  | n + 1, c => do
    let r ← table names
    let t ← ofExcept (Table.buildWith r.parts r.columnBuckets r.rowBuckets)
    let (c, _) ← ofExcept (c.install t)
    tables names n c

end Decoder

/-- Defines modules one after another, with the given imports. -/
def defineModules : List (String × List String) → Catalog → Except Error Catalog
  | [], c => .ok c
  | (name, imports) :: rest, c =>
    match c.defineModule name imports with
    | .error e => .error e
    | .ok c => defineModules rest c

/-- The catalog with the given modules. Imports may go to modules defined later, so all modules are
defined before any imports. -/
def catalogOf (modules : List (String × List String)) : Except Error Catalog :=
  match defineModules (modules.map fun m => (m.1, [])) .initial with
  | .error e => .error e
  | .ok c => defineModules modules c

/-- A whole payload: the catalog and what is left of the input. -/
def catalog : Decoder Catalog := do
  let current ← Decoder.text
  let moduleCount ← Decoder.count 4
  let modules ← Decoder.times Decoder.module moduleCount
  let c ← Decoder.ofExcept (catalogOf modules)
  let tableCount ← Decoder.count 4
  let c ← Decoder.tables (modules.map Prod.fst) tableCount c
  let rest ← Decoder.rest
  if rest ≠ [] then Decoder.fail (.trailing rest.length)
  else Decoder.ofExcept (c.setCurrent current)

/-- The catalog that some bytes encode. -/
def decode (bytes : List UInt8) : Except Error Catalog := (catalog bytes).map Prod.fst

end KeyedTables.Payload
