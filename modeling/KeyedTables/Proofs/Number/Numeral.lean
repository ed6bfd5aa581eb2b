import KeyedTables.Number.Numeral
import Mathlib.Tactic.Lemma

/-!
# Numerals that are written

An integer is read back from its decimal notation. Numerals consist of digits, signs, points and the
letter in front of an exponent, so that a word with any other character is none.
-/
namespace KeyedTables

namespace Text

lemma isDigit_of_mem_digits {n : Nat} {c : Char} (h : c ∈ digits n) : isDigit c = true := by
  have hdigit := Nat.isDigit_of_mem_toDigits (by decide) (by decide) h
  simp only [Char.isDigit, Bool.and_eq_true, decide_eq_true_eq] at hdigit
  exact decide_eq_true hdigit

lemma ofDigits_digits (n : Nat) : ofDigits (digits n) = n := by
  have hfold : ofDigits (digits n) = Nat.ofDigitChars 10 (Nat.toDigits 10 n) 0 :=
    Nat.ofDigitChars_eq_foldl.symm
  rw [hfold, Nat.ofDigitChars_ten_toDigits]

lemma digits_ne_nil (n : Nat) : digits n ≠ [] := Nat.toDigits_ne_nil

end Text

open Text

lemma splitSign_of_digits {cs : List Char} (h : ∀ c ∈ cs, isDigit c = true) :
    splitSign cs = (false, cs) := by
  unfold splitSign
  split
  · cases h '+' List.mem_cons_self
  · cases h '-' List.mem_cons_self
  · rfl

/-- The sign and the digits of an integer. -/
theorem splitSign_intChars (i : Int) :
    splitSign (intChars i) = (decide (i < 0), digits i.natAbs) := by
  unfold intChars
  split
  · rename_i hneg
    rw [decide_eq_true hneg]
    rfl
  · rename_i hneg
    rw [decide_eq_false hneg, splitSign_of_digits fun _ hc => isDigit_of_mem_digits hc]

namespace Number

lemma integer?_intChars (i : Int64) : integer? (intChars i.toInt) = some i := by
  have hdigits : (digits i.toInt.natAbs).all isDigit = true :=
    List.all_eq_true.2 fun _ hc => isDigit_of_mem_digits hc
  have hvalue : (if decide (i.toInt < 0) = true then -(ofDigits (digits i.toInt.natAbs) : Int)
      else ofDigits (digits i.toInt.natAbs)) = i.toInt := by
    rw [ofDigits_digits]
    split
    · rename_i hneg
      have := of_decide_eq_true hneg
      omega
    · rename_i hneg
      have := of_decide_eq_false (Bool.eq_false_iff.2 hneg)
      omega
  have hrange : Int64.minValue.toInt ≤ i.toInt ∧ i.toInt ≤ Int64.maxValue.toInt :=
    ⟨Int64.minValue_le_toInt i, Int64.toInt_le i⟩
  unfold integer?
  rw [splitSign_intChars]
  simp only
  rw [if_pos ⟨digits_ne_nil _, hdigits⟩, hvalue, if_pos hrange, Int64.ofInt_toInt]

lemma startsNumeral_intChars (i : Int) : startsNumeral (intChars i) = true := by
  unfold startsNumeral
  rw [splitSign_intChars]
  cases h : digits i.natAbs with
  | nil => exact absurd h (digits_ne_nil _)
  | cons c cs =>
    have hc : isDigit c = true := isDigit_of_mem_digits (h ▸ List.mem_cons_self)
    simp only [hc, Bool.true_or]

/-- An integer is read back. -/
theorem ofChars?_intChars (i : Int64) : ofChars? (intChars i.toInt) = some (integer i) := by
  rw [ofChars?, if_pos (startsNumeral_intChars _), integer?_intChars]

end Number

def isNumeralChar (c : Char) : Bool :=
  isDigit c || c == '+' || c == '-' || c == '.' || c == 'e' || c == 'E'

lemma isNumeralChar_of_isDigit {c : Char} (h : isDigit c = true) : isNumeralChar c = true := by
  simp [isNumeralChar, h]

lemma isNumeralChar_of_splitSign {cs : List Char}
    (h : ∀ c ∈ (splitSign cs).2, isNumeralChar c = true) : ∀ c ∈ cs, isNumeralChar c = true := by
  unfold splitSign at h
  split at h
  · exact List.forall_mem_cons.2 ⟨rfl, h⟩
  · exact List.forall_mem_cons.2 ⟨rfl, h⟩
  · exact h

namespace Numeral

lemma isNumeralChar_of_exponent? {cs : List Char} {e : Int} (h : exponent? cs = some e) :
    ∀ c ∈ cs, isNumeralChar c = true := by
  cases cs with
  | nil => exact fun c hc => by cases hc
  | cons c cs =>
    rw [exponent?] at h
    split at h
    · rename_i hc
      have hmark : isNumeralChar c = true := by
        obtain rfl | rfl := hc
        · rfl
        · rfl
      refine List.forall_mem_cons.2 ⟨hmark, isNumeralChar_of_splitSign ?_⟩
      split at h
      · cases h
      · rename_i ds _ hsplit
        split at h
        · rename_i hds
          rw [hsplit]
          exact fun d hd => isNumeralChar_of_isDigit (List.all_eq_true.1 hds d hd)
        · cases h
    · cases h

/-- What is not a numeral character ends the digits, the point, and the exponent. -/
theorem isNumeralChar_of_ofChars? {cs : List Char} {x : Numeral} (h : ofChars? cs = some x) :
    ∀ c ∈ cs, isNumeralChar c = true := by
  have hdigits : ∀ ds : List Char, ∀ c ∈ ds.takeWhile isDigit, isNumeralChar c = true :=
    fun ds c hc => isNumeralChar_of_isDigit (List.all_eq_true.1 List.all_takeWhile c hc)
  have hsplit : ∀ {ds : List Char}, (∀ c ∈ ds.dropWhile isDigit, isNumeralChar c = true) →
      ∀ c ∈ ds, isNumeralChar c = true := by
    intro ds hdrop c hc
    rw [← List.takeWhile_append_dropWhile (p := isDigit) (l := ds), List.mem_append] at hc
    exact hc.elim (hdigits ds c) (hdrop c)
  refine isNumeralChar_of_splitSign (hsplit fun c hc => ?_)
  unfold ofChars? at h
  dsimp only at h
  split at h
  · rename_i fraction hbody
    split at h
    · cases h
    · obtain ⟨e, he, _⟩ := Option.map_eq_some_iff.1 h
      rw [hbody] at hc
      obtain rfl | hc := List.mem_cons.1 hc
      · rfl
      · exact hsplit (isNumeralChar_of_exponent? he) c hc
  · split at h
    · cases h
    · obtain ⟨e, he, _⟩ := Option.map_eq_some_iff.1 h
      exact isNumeralChar_of_exponent? he c hc

end Numeral

/-- A word with a character that no numeral holds is no number. -/
theorem Number.isNumeralChar_of_ofChars? {cs : List Char} {n : Number} (h : ofChars? cs = some n) :
    ∀ c ∈ cs, isNumeralChar c = true := by
  unfold ofChars? at h
  split at h
  · split at h
    · rename_i i hi
      unfold integer? at hi
      dsimp only at hi
      split at hi
      · rename_i hbody
        exact isNumeralChar_of_splitSign fun c hc =>
          isNumeralChar_of_isDigit (List.all_eq_true.1 hbody.2 c hc)
      · cases hi
    · obtain ⟨x, hx, _⟩ := Option.map_eq_some_iff.1 h
      exact Numeral.isNumeralChar_of_ofChars? hx
  · cases h

end KeyedTables
