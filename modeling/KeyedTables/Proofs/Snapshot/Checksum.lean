import KeyedTables.Number.Bytes
import KeyedTables.Snapshot.Checksum
import Mathlib.Data.Nat.Bitwise

/-!
# What a checksum detects

A shift of the register is linear in exclusive or and loses nothing. The register after at most four
bytes is that many shifts of what it was, combined with the number that the bytes denote, so no two
such words lead to the same register, and none of the bytes behind them makes up for the difference.
-/
namespace KeyedTables.Checksum

lemma toNat_ofNat_of_lt {n : Nat} (h : n < 0x100000000) : (UInt32.ofNat n).toNat = n :=
  UInt32.toNat_ofNat_of_lt' h

lemma toNat_half (r : UInt32) : (r >>> 1).toNat = r.toNat / 2 := UInt32.toNat_shiftRight r 1

lemma and_one_eq_one_iff {r : UInt32} : r &&& 1 = 1 ↔ r.toNat % 2 = 1 := by
  rw [← UInt32.toNat_inj, UInt32.toNat_and]
  exact Eq.congr_left (Nat.and_one_is_mod r.toNat)

lemma shift_xor (a b : UInt32) : shift (a ^^^ b) = shift a ^^^ shift b := by
  have hodd : (a ^^^ b) &&& 1 = 1 ↔ ¬ (a &&& 1 = 1 ↔ b &&& 1 = 1) := by
    rw [and_one_eq_one_iff, and_one_eq_one_iff, and_one_eq_one_iff, UInt32.toNat_xor]
    exact Nat.xor_mod_two_eq_one
  have hhalf : (a ^^^ b) >>> 1 = a >>> 1 ^^^ b >>> 1 := UInt32.shiftRight_xor
  unfold shift
  rw [hhalf]
  by_cases ha : a &&& 1 = 1 <;> by_cases hb : b &&& 1 = 1
  · rw [if_neg (by simp [hodd, ha, hb]), if_pos ha, if_pos hb]
    rw [UInt32.xor_comm (b >>> 1), UInt32.xor_assoc, ← UInt32.xor_assoc 0xEDB88320,
      UInt32.xor_self, UInt32.zero_xor]
  · rw [if_pos (by simp [hodd, ha, hb]), if_pos ha, if_neg hb]
    ac_rfl
  · rw [if_pos (by simp [hodd, ha, hb]), if_neg ha, if_pos hb]
    ac_rfl
  · rw [if_neg (by simp [hodd, ha, hb]), if_neg ha, if_neg hb]

/-- The polynomial has a one in front, where a register that is shifted has none. -/
theorem eq_zero_of_shift_eq_zero {r : UInt32} (h : shift r = 0) : r = 0 := by
  have hhalf := toNat_half r
  have hlt := r.toNat_lt
  unfold shift at h
  split at h
  · have hpolynomial : (r >>> 1).toNat = 0xEDB88320 := by
      rw [UInt32.xor_eq_zero_iff.1 h]
      rfl
    omega
  · rename_i heven
    rw [and_one_eq_one_iff] at heven
    have hzero : (r >>> 1).toNat = 0 := by
      rw [h]
      rfl
    apply UInt32.toNat_inj.1
    change r.toNat = 0
    omega

lemma shift_injective : Function.Injective shift := by
  intro a b h
  apply UInt32.xor_eq_zero_iff.1
  apply eq_zero_of_shift_eq_zero
  rw [shift_xor, h, UInt32.xor_self]

lemma repeat_shift_xor (n : Nat) (a b : UInt32) :
    Nat.repeat shift n (a ^^^ b) = Nat.repeat shift n a ^^^ Nat.repeat shift n b := by
  induction n with
  | zero => rfl
  | succ n ih => rw [Nat.repeat, Nat.repeat, Nat.repeat, ih, shift_xor]

lemma repeat_shift_injective (n : Nat) : Function.Injective (Nat.repeat shift n) := by
  induction n with
  | zero => exact fun _ _ h => h
  | succ n ih => exact shift_injective.comp ih

lemma repeat_shift_add (m n : Nat) (r : UInt32) :
    Nat.repeat shift (m + n) r = Nat.repeat shift m (Nat.repeat shift n r) := by
  induction m with
  | zero => rw [Nat.zero_add, Nat.repeat]
  | succ m ih => rw [Nat.succ_add, Nat.repeat, Nat.repeat, ih]

/-- A number is shifted out if its lowest bits are zeros. -/
theorem shift_ofNat_double {n : Nat} (h : n < 0x80000000) :
    shift (UInt32.ofNat (2 * n)) = UInt32.ofNat n := by
  have hnat : (UInt32.ofNat (2 * n)).toNat = 2 * n := toNat_ofNat_of_lt (by omega)
  have heven : ¬ UInt32.ofNat (2 * n) &&& 1 = 1 := by
    rw [and_one_eq_one_iff, hnat]
    omega
  rw [shift, if_neg heven]
  apply UInt32.toNat_inj.1
  rw [toNat_half, hnat, toNat_ofNat_of_lt (by omega)]
  omega

lemma repeat_shift_eight {n : Nat} (h : n < 0x1000000) :
    Nat.repeat shift 8 (UInt32.ofNat (256 * n)) = UInt32.ofNat n := by
  have hdouble : 256 * n = 2 * (2 * (2 * (2 * (2 * (2 * (2 * (2 * n))))))) := by omega
  simp only [Nat.repeat, hdouble]
  repeat rw [shift_ofNat_double (by omega)]

/-- Bits that lie apart are combined by adding. -/
theorem xor_mul_eq_add {b m : Nat} (hb : b < 256) : b ^^^ 256 * m = b + 256 * m := by
  have hlow : (b ^^^ 256 * m) % 256 = b := by
    have h := @Nat.xor_mod_two_pow b (256 * m) 8
    simp only [Nat.reducePow, Nat.mul_mod_right, Nat.xor_zero, Nat.mod_eq_of_lt hb] at h
    exact h
  have hhigh : (b ^^^ 256 * m) / 256 = m := by
    have h := @Nat.xor_div_two_pow b (256 * m) 8
    simp only [Nat.reducePow, Nat.div_eq_of_lt hb, Nat.zero_xor] at h
    omega
  omega

lemma toNat_lt_of_length_le {bs : List UInt8} {n : Nat} (h : bs.length ≤ n) :
    Bytes.toNat bs < Nat.pow 256 n :=
  Nat.lt_of_lt_of_le (Bytes.toNat_lt bs) (Nat.pow_le_pow_right (by decide) h)

/-- The register after at most four bytes is that of the number they denote. -/
theorem absorb_eq_repeat {bs : List UInt8} (h : bs.length ≤ 4) (r : UInt32) :
    absorb r bs = Nat.repeat shift (8 * bs.length) (r ^^^ UInt32.ofNat (Bytes.toNat bs)) := by
  induction bs generalizing r with
  | nil => exact (UInt32.xor_zero).symm
  | cons b bs ih =>
    rw [List.length_cons] at h
    have hrest : Bytes.toNat bs < 0x1000000 := toNat_lt_of_length_le (n := 3) (by omega)
    have hword : b.toUInt32 ^^^ UInt32.ofNat (256 * Bytes.toNat bs) =
        UInt32.ofNat (Bytes.toNat (b :: bs)) := by
      have hb := b.toNat_lt
      apply UInt32.toNat_inj.1
      rw [UInt32.toNat_xor, UInt8.toNat_toUInt32, toNat_ofNat_of_lt (by omega), xor_mul_eq_add hb,
        Bytes.toNat, toNat_ofNat_of_lt (by omega)]
    calc absorb r (b :: bs) = absorb (step r b) bs := rfl
      _ = Nat.repeat shift (8 * bs.length) (step r b ^^^ UInt32.ofNat (Bytes.toNat bs)) :=
        ih (by omega) (step r b)
      _ = Nat.repeat shift (8 * bs.length) (Nat.repeat shift 8
            ((r ^^^ b.toUInt32) ^^^ UInt32.ofNat (256 * Bytes.toNat bs))) := by
        rw [repeat_shift_xor 8, repeat_shift_eight hrest, step]
      _ = Nat.repeat shift (8 * (b :: bs).length) (r ^^^ UInt32.ofNat (Bytes.toNat (b :: bs))) := by
        rw [← repeat_shift_add, UInt32.xor_assoc, hword, List.length_cons, Nat.mul_succ]

lemma absorb_injective (bs : List UInt8) : Function.Injective fun r => absorb r bs := by
  induction bs with
  | nil => exact fun _ _ h => h
  | cons b bs ih =>
    intro r r' h
    have hstep : step r b = step r' b := ih h
    exact (UInt32.xor_left_inj _).1 (repeat_shift_injective 8 hstep)

/-- Bytes with the same checksum that differ in at most four bytes in a row do not differ. -/
theorem eq_of_ofBytes_eq {before xs ys after : List UInt8} (hlength : ys.length = xs.length)
    (hle : xs.length ≤ 4) (h : ofBytes (before ++ ys ++ after) = ofBytes (before ++ xs ++ after)) :
    ys = xs := by
  have habsorb := (UInt32.xor_left_inj _).1 h
  rw [absorb_append, absorb_append, absorb_append, absorb_append] at habsorb
  have hwindow := absorb_injective after habsorb
  rw [absorb_eq_repeat hle, absorb_eq_repeat (hlength ▸ hle), hlength] at hwindow
  have hword := congrArg UInt32.toNat ((UInt32.xor_right_inj _).1 (repeat_shift_injective _ hwindow))
  have hys : Bytes.toNat ys < 0x100000000 := toNat_lt_of_length_le (n := 4) (hlength ▸ hle)
  have hxs : Bytes.toNat xs < 0x100000000 := toNat_lt_of_length_le (n := 4) hle
  rw [toNat_ofNat_of_lt hys, toNat_ofNat_of_lt hxs] at hword
  exact Bytes.eq_of_toNat_eq hlength hword

end KeyedTables.Checksum
