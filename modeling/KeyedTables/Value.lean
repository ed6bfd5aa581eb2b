import KeyedTables.Number.Basic
import KeyedTables.Number.Notation
import KeyedTables.Text.Quoted

/-!
# Values

What a cell holds, what a key is, and what an expression yields: an atom or a multifield, a flat
sequence of atoms. Two values are equal when kind and content are, floating numbers by their bits.
-/
namespace KeyedTables

inductive Atom
  | symbol (name : String)
  | string (text : String)
  | integer (value : Int64)
  | float (value : Binary64)
  deriving DecidableEq, Repr

namespace Atom

def typeName : Atom → String
  | symbol _ => "SYMBOL"
  | string _ => "STRING"
  | integer _ => "INTEGER"
  | float _ => "FLOAT"

def symbol? : Atom → Option String
  | symbol s => some s
  | _ => none

/-- The text of a symbol or a string. -/
def lexeme? : Atom → Option String
  | symbol s => some s
  | string s => some s
  | _ => none

def ofNumber : Number → Atom
  | .integer i => integer i
  | .float x => float x

def number? : Atom → Option Number
  | integer i => some (.integer i)
  | float x => some (.float x)
  | _ => none

/-- The written form: symbols bare, strings quoted, numbers in decimal notation. -/
def chars : Atom → List Char
  | symbol s => s.toList
  | string s => Text.quote s.toList
  | integer i => Text.intChars i.toInt
  | float x => x.chars

def text (a : Atom) : String := String.ofList a.chars

@[simp] theorem number?_ofNumber (n : Number) : (ofNumber n).number? = some n := by cases n <;> rfl

end Atom

inductive Value
  | atom (a : Atom)
  | multifield (fields : List Atom)
  deriving DecidableEq, Repr

namespace Value

def symbol (s : String) : Value := atom (.symbol s)
def string (s : String) : Value := atom (.string s)
def integer (i : Int64) : Value := atom (.integer i)

def boolean (b : Bool) : Value := symbol (if b then "TRUE" else "FALSE")

/-- The value of a computation without a result of its own. -/
def false : Value := boolean Bool.false

/-- Only the symbol `FALSE` is false. -/
def isTrue (v : Value) : Bool := v ≠ false

def typeName : Value → String
  | atom a => a.typeName
  | multifield _ => "MULTIFIELD"

def atom? : Value → Option Atom
  | atom a => some a
  | multifield _ => none

def integer? : Value → Option Int64
  | atom (.integer i) => some i
  | _ => none

def number? : Value → Option Number
  | atom a => a.number?
  | multifield _ => none

/-- The text of a symbol or a string, as which tables are named. -/
def lexeme? : Value → Option String
  | atom a => a.lexeme?
  | multifield _ => none

/-- The atoms of a value in order, an atom being the one of its own. -/
def atoms : Value → List Atom
  | atom a => [a]
  | multifield xs => xs

/-- The multifield of the atoms of all values, in order. -/
def concat (vs : List Value) : Value := multifield (vs.flatMap atoms)

/-- The written form: an atom's own, and a multifield as its atoms in parentheses. -/
def chars : Value → List Char
  | atom a => a.chars
  | multifield xs => '(' :: ([' '].intercalate (xs.map Atom.chars) ++ [')'])

def text (v : Value) : String := String.ofList v.chars

/-- The text a value contributes to output: a string without its quotes. -/
def bareText : Value → String
  | atom (.string s) => s
  | v => v.text

@[simp] theorem isTrue_boolean (b : Bool) : (boolean b).isTrue = b := by cases b <;> rfl

@[simp] theorem atoms_concat (vs : List Value) : (concat vs).atoms = vs.flatMap atoms := rfl

end Value

end KeyedTables
