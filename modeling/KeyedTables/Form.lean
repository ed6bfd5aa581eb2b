import KeyedTables.Value

/-!
# Forms

Source text is read into forms: atoms, variables, lists, and lists marked for immediate evaluation.
A form has one written spelling, which differs from a source text of it only in blanks and comments.
-/
namespace KeyedTables

inductive Form
  | atom (a : Atom)
  /-- `?name`, the name possibly holding a colon. -/
  | var (name : String)
  /-- `?*name*`. -/
  | globalVar (name : String)
  | list (items : List Form)
  /-- `=(…)`, evaluated where it stands in a definition. -/
  | immediate (items : List Form)
  deriving Repr

namespace Form

def symbol? : Form → Option String
  | atom a => a.symbol?
  | _ => none

def list? : Form → Option (List Form)
  | list xs => some xs
  | _ => none

/-- The symbol a list begins with. -/
def head? : Form → Option String
  | list (x :: _) => x.symbol?
  | _ => none

def atom? : Form → Option Atom
  | atom a => some a
  | _ => none

/-- The atoms of a list of atoms; none if some item is of another kind. -/
def atoms? : List Form → Option (List Atom)
  | [] => some []
  | x :: xs => do return (← x.atom?) :: (← atoms? xs)

/-- The constant an atom or a list of atoms denotes. -/
def literal? : Form → Option Value
  | atom a => some (.atom a)
  | list xs => (atoms? xs).map .multifield
  | _ => none

/-- The form that reads as a value. -/
def ofValue : Value → Form
  | .atom a => atom a
  | .multifield xs => list (xs.map atom)

mutual

/-- The written form. -/
def chars : Form → List Char
  | atom a => a.chars
  | var v => '?' :: v.toList
  | globalVar g => '?' :: '*' :: (g.toList ++ ['*'])
  | list xs => '(' :: (itemChars xs ++ [')'])
  | immediate xs => '=' :: '(' :: (itemChars xs ++ [')'])

/-- Items one after another, a space between two. -/
def itemChars : List Form → List Char
  | [] => []
  | [x] => chars x
  | x :: y :: rest => chars x ++ ' ' :: itemChars (y :: rest)

end

def text (f : Form) : String := String.ofList f.chars

/-- The text of several forms, a space between two. -/
def sequenceText (fs : List Form) : String := String.ofList (itemChars fs)

theorem itemChars_map_atom (xs : List Atom) :
    itemChars (xs.map atom) = [' '].intercalate (xs.map Atom.chars) := by
  induction xs with
  | nil => simp [itemChars]
  | cons x xs ih =>
    cases xs with
    | nil => simp [itemChars, chars]
    | cons y ys => simp_all [itemChars, chars]

/-- A value and the form that reads as it are written alike. -/
theorem chars_ofValue (v : Value) : (ofValue v).chars = v.chars := by
  cases v with
  | atom a => rfl
  | multifield xs => simp [ofValue, chars, Value.chars, itemChars_map_atom]

@[simp] theorem text_ofValue (v : Value) : (ofValue v).text = v.text := by
  simp [text, Value.text, chars_ofValue]

theorem atoms?_map_atom (xs : List Atom) : atoms? (xs.map atom) = some xs := by
  induction xs with
  | nil => rfl
  | cons x xs ih => simp [atoms?, atom?, ih]

@[simp] theorem literal?_ofValue (v : Value) : (ofValue v).literal? = some v := by
  cases v with
  | atom a => rfl
  | multifield xs => simp [ofValue, literal?, atoms?_map_atom]

end Form

end KeyedTables
