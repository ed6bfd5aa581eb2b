/-!
# Blank characters

The characters of Unicode's `White_Space` property. They separate words in source text, together
with parentheses, quotes and comments.
-/
namespace KeyedTables.Text

/-- The code points with the `White_Space` property: the controls from tab to carriage return, the
space, the next-line control, and the space, line and paragraph separators. -/
def blankCodes : List Nat :=
  [0x09, 0x0A, 0x0B, 0x0C, 0x0D, 0x20, 0x85, 0xA0, 0x1680,
   0x2000, 0x2001, 0x2002, 0x2003, 0x2004, 0x2005, 0x2006, 0x2007, 0x2008, 0x2009, 0x200A,
   0x2028, 0x2029, 0x202F, 0x205F, 0x3000]

/-- Whether a character has the `White_Space` property. -/
def isBlank (c : Char) : Bool := blankCodes.contains c.toNat

theorem isBlank_newline : isBlank '\n' = true := by decide

theorem isBlank_space : isBlank ' ' = true := by decide

end KeyedTables.Text
