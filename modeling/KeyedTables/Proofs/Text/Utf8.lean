import KeyedTables.Text.Utf8
import Mathlib.Tactic.Lemma

/-!
# Decoding encoded text

What is encoded as UTF-8 decodes to itself. The first byte of a character tells how many bytes the
character has, the second byte of a longer one is in the range that its first byte allows, and the
bits of all bytes together are the code point.
-/
namespace KeyedTables.Utf8

section Bytes
variable {a b : UInt8}

lemma width?_one (h : a.toNat < 0x80) : width? a = some 1 := by
  rw [width?, if_pos (UInt8.lt_iff_toNat_lt.2 h)]

lemma width?_two (h : 0xC2 ≤ a.toNat) (h' : a.toNat ≤ 0xDF) : width? a = some 2 := by
  simp only [width?, UInt8.lt_iff_toNat_lt, UInt8.le_iff_toNat_le, UInt8.reduceToNat,
    Bool.and_eq_true, decide_eq_true_eq]
  rw [if_neg (by omega), if_pos ⟨h, h'⟩]

lemma width?_three (h : 0xE0 ≤ a.toNat) (h' : a.toNat ≤ 0xEF) : width? a = some 3 := by
  simp only [width?, UInt8.lt_iff_toNat_lt, UInt8.le_iff_toNat_le, UInt8.reduceToNat,
    Bool.and_eq_true, decide_eq_true_eq]
  rw [if_neg (by omega), if_neg (by omega), if_pos ⟨h, h'⟩]

lemma width?_four (h : 0xF0 ≤ a.toNat) (h' : a.toNat ≤ 0xF4) : width? a = some 4 := by
  simp only [width?, UInt8.lt_iff_toNat_lt, UInt8.le_iff_toNat_le, UInt8.reduceToNat,
    Bool.and_eq_true, decide_eq_true_eq]
  rw [if_neg (by omega), if_neg (by omega), if_neg (by omega), if_pos ⟨h, h'⟩]

lemma isTail_iff : isTail b = true ↔ 0x80 ≤ b.toNat ∧ b.toNat ≤ 0xBF := by
  simp [isTail, UInt8.le_iff_toNat_le]

/-- The second byte may be any that continues a character, but for four first bytes. -/
theorem secondAllowed_of_isTail (hb : isTail b = true) (h0 : a.toNat = 0xE0 → 0xA0 ≤ b.toNat)
    (hd : a.toNat = 0xED → b.toNat ≤ 0x9F) (hf : a.toNat = 0xF0 → 0x90 ≤ b.toNat)
    (h4 : a.toNat = 0xF4 → b.toNat ≤ 0x8F) : secondAllowed a b = true := by
  obtain ⟨hb, hb'⟩ := isTail_iff.1 hb
  simp only [secondAllowed, isTail, ← UInt8.toNat_inj, UInt8.le_iff_toNat_le, UInt8.reduceToNat]
  split
  · simpa using ⟨h0 ‹_›, hb'⟩
  · split
    · simpa using ⟨hb, hd ‹_›⟩
    · split
      · simpa using ⟨hf ‹_›, hb'⟩
      · split
        · simpa using ⟨hb, h4 ‹_›⟩
        · simpa using ⟨hb, hb'⟩

end Bytes

section Char
variable {a b c d : UInt8}

lemma decodeChar_one (ha : a.toNat < 0x80) (index : Nat) (rest : List UInt8) :
    decodeChar index (a :: rest) = .ok (Char.ofNat a.toNat, rest) := by
  unfold decodeChar
  dsimp only
  rw [width?_one ha]
  rfl

lemma decodeChar_two (ha : 0xC2 ≤ a.toNat) (ha' : a.toNat ≤ 0xDF) (hb : isTail b = true)
    (index : Nat) (rest : List UInt8) :
    decodeChar index (a :: b :: rest) =
      .ok (Char.ofNat (a.toNat % 32 * 64 + tailBits b), rest) := by
  unfold decodeChar
  dsimp only
  rw [width?_two ha ha']
  exact if_pos hb

lemma decodeChar_three (ha : 0xE0 ≤ a.toNat) (ha' : a.toNat ≤ 0xEF)
    (hab : secondAllowed a b = true) (hc : isTail c = true) (index : Nat) (rest : List UInt8) :
    decodeChar index (a :: b :: c :: rest) =
      .ok (Char.ofNat (a.toNat % 16 * 4096 + tailBits b * 64 + tailBits c), rest) := by
  unfold decodeChar
  dsimp only
  rw [width?_three ha ha']
  simp [hab, hc]

lemma decodeChar_four (ha : 0xF0 ≤ a.toNat) (ha' : a.toNat ≤ 0xF4)
    (hab : secondAllowed a b = true) (hc : isTail c = true) (hd : isTail d = true) (index : Nat)
    (rest : List UInt8) :
    decodeChar index (a :: b :: c :: d :: rest) =
      .ok (Char.ofNat (a.toNat % 8 * 262144 + tailBits b * 4096 + tailBits c * 64 + tailBits d),
        rest) := by
  unfold decodeChar
  dsimp only
  rw [width?_four ha ha']
  simp [hab, hc, hd]

/-- The byte that continues a character with six bits. -/
theorem toNat_tail (n : Nat) : (UInt8.ofNat (n % 64 + 128)).toNat = n % 64 + 128 :=
  UInt8.toNat_ofNat_of_lt' (by change n % 64 + 128 < 256; omega)

lemma isTail_tail (n : Nat) : isTail (UInt8.ofNat (n % 64 + 128)) = true := by
  rw [isTail_iff, toNat_tail]
  omega

lemma tailBits_tail (n : Nat) : tailBits (UInt8.ofNat (n % 64 + 128)) = n % 64 := by
  rw [tailBits, toNat_tail]
  omega

lemma toNat_first {n : Nat} (h : n < 256) : (UInt8.ofNat n).toNat = n :=
  UInt8.toNat_ofNat_of_lt' h

/-- Code points are none of the surrogates, and end at the last one. -/
theorem toNat_isValid (c : Char) :
    c.toNat < 0xD800 ∨ (0xDFFF < c.toNat ∧ c.toNat < 0x110000) := c.valid

end Char

/-- A character in front of other bytes is decoded from its own bytes. -/
theorem decodeChar_encodeChar (c : Char) (index : Nat) (rest : List UInt8) :
    decodeChar index (encodeChar c ++ rest) = .ok (c, rest) := by
  have hvalid := toNat_isValid c
  have hc : c.val.toNat = c.toNat := rfl
  simp only [encodeChar, String.utf8EncodeChar, hc]
  generalize hn : c.toNat = n at hvalid
  have hchar : ∀ m, m = n → Char.ofNat m = c := by
    rintro m rfl
    rw [← hn]
    exact Char.ofNat_toNat c
  by_cases h1 : n ≤ 0x7F
  · rw [if_pos h1, List.cons_append, List.nil_append, decodeChar_one (by rw [toNat_first] <;> omega),
      toNat_first (by omega), hchar n rfl]
  · rw [if_neg h1]
    by_cases h2 : n ≤ 0x7FF
    · have ha : (UInt8.ofNat (n / 64 % 32 + 192)).toNat = n / 64 % 32 + 192 := toNat_first (by omega)
      rw [if_pos h2]
      simp only [List.cons_append, List.nil_append]
      rw [decodeChar_two (by omega) (by omega) (isTail_tail n), tailBits_tail, ha, hchar _ (by omega)]
    · rw [if_neg h2]
      by_cases h3 : n ≤ 0xFFFF
      · have ha : (UInt8.ofNat (n / 4096 % 16 + 224)).toNat = n / 4096 % 16 + 224 :=
          toNat_first (by omega)
        have hb := toNat_tail (n / 64)
        rw [if_pos h3]
        simp only [List.cons_append, List.nil_append]
        rw [decodeChar_three (by omega) (by omega) _ (isTail_tail n), tailBits_tail, tailBits_tail, ha,
          hchar _ (by omega)]
        exact secondAllowed_of_isTail (isTail_tail _) (by omega) (by omega) (by omega) (by omega)
      · have ha : (UInt8.ofNat (n / 262144 % 8 + 240)).toNat = n / 262144 % 8 + 240 :=
          toNat_first (by omega)
        have hb := toNat_tail (n / 4096)
        rw [if_neg h3]
        simp only [List.cons_append, List.nil_append]
        rw [decodeChar_four (by omega) (by omega) _ (isTail_tail _) (isTail_tail n), tailBits_tail,
          tailBits_tail, tailBits_tail, ha, hchar _ (by omega)]
        exact secondAllowed_of_isTail (isTail_tail _) (by omega) (by omega) (by omega) (by omega)

lemma decodeFrom_encode (cs : List Char) (index : Nat) (before : List Char) :
    decodeFrom index (encode cs) before = .ok (before.reverse ++ cs) := by
  induction cs generalizing index before with
  | nil => rw [encode_nil, decodeFrom_nil, List.append_nil]
  | cons c cs ih =>
    have hcons : encode (c :: cs) = encodeChar c ++ encode cs := List.flatMap_cons
    rw [hcons, decodeFrom_of_char before (decodeChar_encodeChar c index (encode cs)), ih]
    simp

/-- What is encoded decodes to itself. -/
theorem decode_encode (cs : List Char) : decode (encode cs) = .ok cs := decodeFrom_encode cs 0 []

end KeyedTables.Utf8
