import KeyedTables.Text.Hidden

/-!
# Quoted text

The two quoted spellings of a text. A string constant escapes the quote and the backslash, and no
other character, so that it reads back to the same text whatever it holds. A name listed in a
message is quoted so that it can be read off the line: hidden characters are spelled out as well.
-/
namespace KeyedTables.Text

/-- A quote or a backslash takes a backslash in front. -/
def escapeChar (c : Char) : List Char := if c = '"' ∨ c = '\\' then ['\\', c] else [c]

/-- Every character escaped. -/
def escape (cs : List Char) : List Char := cs.flatMap escapeChar

/-- A string constant: the escaped text between quotes. -/
def quote (cs : List Char) : List Char := '"' :: (escape cs ++ ['"'])

@[simp] theorem escape_nil : escape [] = [] := rfl

@[simp] theorem escape_cons (c : Char) (cs : List Char) :
    escape (c :: cs) = escapeChar c ++ escape cs := rfl

/-- A code point in hexadecimal digits. -/
def codePoint (c : Char) : List Char :=
  ['\\', 'u', '\x7b'] ++ Nat.toDigits 16 c.toNat ++ ['\x7d']

/-- The spelling of one character inside a listed name. -/
def spell (c : Char) : List Char :=
  if c = '"' ∨ c = '\\' then ['\\', c]
  else if c = '\n' then ['\\', 'n']
  else if c = '\r' then ['\\', 'r']
  else if c = '\t' then ['\\', 't']
  else if c.toNat = 0 then ['\\', '0']
  else if isHidden c then codePoint c
  else [c]

/-- A name as listed in a message. -/
def quoteName (s : String) : String :=
  String.ofList ('"' :: (s.toList.flatMap spell ++ ['"']))

/-- Names in brackets, separated by commas. -/
def nameList (names : List String) : String :=
  "[" ++ ", ".intercalate (names.map quoteName) ++ "]"

end KeyedTables.Text
