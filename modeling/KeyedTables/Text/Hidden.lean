import KeyedTables.Text.Blank
import KeyedTables.Text.Mark
import KeyedTables.Text.Unassigned

/-!
# Hidden characters

The characters that cannot be told from a line of text by looking at it: controls, blanks other than
the space, format characters, code points without a character of their own, marks that are drawn
upon another character, and fillers that are drawn as nothing at all.
-/
namespace KeyedTables.Text

/-- The code points of the general category `Cc`. -/
def controls : CodeRanges := [(0x0000, 0x001F), (0x007F, 0x009F)]

/-- The code points of the general categories `Zs`, `Zl` and `Zp`, less the space. -/
def separators : CodeRanges :=
  [(0x00A0, 0x00A0), (0x1680, 0x1680), (0x2000, 0x200A), (0x2028, 0x2029), (0x202F, 0x202F),
   (0x205F, 0x205F), (0x3000, 0x3000)]

/-- The code points of the general category `Cf`. -/
def formats : CodeRanges :=
  [(0x00AD, 0x00AD), (0x0600, 0x0605), (0x061C, 0x061C), (0x06DD, 0x06DD), (0x070F, 0x070F),
   (0x0890, 0x0891), (0x08E2, 0x08E2), (0x180E, 0x180E), (0x200B, 0x200F), (0x202A, 0x202E),
   (0x2060, 0x2064), (0x2066, 0x206F), (0xFEFF, 0xFEFF), (0xFFF9, 0xFFFB), (0x110BD, 0x110BD),
   (0x110CD, 0x110CD), (0x13430, 0x1343F), (0x1BCA0, 0x1BCA3), (0x1D173, 0x1D17A),
   (0xE0001, 0xE0001), (0xE0020, 0xE007F)]

/-- The code points of the general category `Co`. -/
def privateUse : CodeRanges := [(0xE000, 0xF8FF), (0xF0000, 0xFFFFD), (0x100000, 0x10FFFD)]

/-- The code points with the property `Default_Ignorable_Code_Point`. -/
def ignorables : CodeRanges :=
  [(0x00AD, 0x00AD), (0x034F, 0x034F), (0x061C, 0x061C), (0x115F, 0x1160), (0x17B4, 0x17B5),
   (0x180B, 0x180F), (0x200B, 0x200F), (0x202A, 0x202E), (0x2060, 0x206F), (0x3164, 0x3164),
   (0xFE00, 0xFE0F), (0xFEFF, 0xFEFF), (0xFFA0, 0xFFA0), (0xFFF0, 0xFFF8), (0x1BCA0, 0x1BCA3),
   (0x1D173, 0x1D17A), (0xE0000, 0xE0FFF)]

/-- The sets whose members are hidden. -/
def hiddenSets : List CodeRanges :=
  [controls, separators, formats, privateUse, ignorables, extendingMarks, unassigned]

/-- Whether a character is hidden. -/
def isHidden (c : Char) : Bool := hiddenSets.any (·.covers c.toNat)

theorem isHidden_iff {c : Char} :
    isHidden c = true ↔ ∃ s ∈ hiddenSets, s.covers c.toNat = true := by
  simp [isHidden]

/-- A blank is the space or hidden. -/
theorem isHidden_of_isBlank {c : Char} (h : isBlank c = true) (hc : c ≠ ' ') :
    isHidden c = true := by
  have hs : c.toNat ≠ 0x20 := fun he => hc (Char.toNat_inj.1 he)
  have all : ∀ n ∈ blankCodes, n ≠ 0x20 → (controls ++ separators).covers n = true := by decide
  have hn := all c.toNat (by simpa [isBlank] using h) hs
  rw [CodeRanges.covers_append, Bool.or_eq_true] at hn
  rcases hn with hn | hn
  · exact isHidden_iff.2 ⟨controls, by simp [hiddenSets], hn⟩
  · exact isHidden_iff.2 ⟨separators, by simp [hiddenSets], hn⟩

example : isHidden ' ' = false ∧ isHidden '\u00a0' = true := by decide +kernel

end KeyedTables.Text
