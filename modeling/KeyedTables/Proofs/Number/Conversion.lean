import KeyedTables.Proofs.Number.Rounding

/-!
# Conversion of integers

What becomes of a 64-bit integer as a binary64 number. Rounding shifts a significand to the right
and keeps two bits of what is shifted out: the last one, and whether there are ones behind it. They
tell how the rest compares with one half. A significand that rounding carries over to `2 ^ 53` is
shifted once more.
-/
namespace KeyedTables

open Float.Model Float.Model.UnpackedFloat

section Shift
variable {m k : Nat}

/-- The round bit is there if the rest is at least one half, the sticky bit if it is neither nothing
nor exactly one half. -/
theorem shiftRight_exact (m k : Nat) :
    ExtendedMantissa.ofMantissaAndAccuracy m .exact >>> k =
      ⟨m / 2 ^ k, decide (2 ^ k ≤ 2 * (m % 2 ^ k)),
        decide (m % 2 ^ k ≠ 0 ∧ 2 * (m % 2 ^ k) ≠ 2 ^ k)⟩ := by
  induction k with
  | zero =>
    change ExtendedMantissa.mk m false false = _
    simp [Nat.mod_one]
  | succ k ih =>
    change (ExtendedMantissa.ofMantissaAndAccuracy m .exact >>> k).shiftRightOne = _
    have hpos : 0 < 2 ^ k := Nat.two_pow_pos k
    have hlt : m % 2 ^ k < 2 ^ k := Nat.mod_lt m hpos
    have hbit : m / 2 ^ k % 2 < 2 := Nat.mod_lt _ Nat.two_pos
    rw [ih, ExtendedMantissa.shiftRightOne, Nat.pow_succ, Nat.mod_mul, ← Nat.div_div_eq_div_mul]
    generalize m % 2 ^ k = r at hlt ⊢
    generalize m / 2 ^ k = q at hbit ⊢
    generalize 2 ^ k = p at hpos hlt ⊢
    obtain hbit | hbit : q % 2 = 0 ∨ q % 2 = 1 := by omega
    · have hround : ¬ p * 2 ≤ 2 * (r + p * 0) := by omega
      have hsticky : (r + p * 0 ≠ 0 ∧ 2 * (r + p * 0) ≠ p * 2) ↔
          (p ≤ 2 * r ∨ r ≠ 0 ∧ 2 * r ≠ p) := by omega
      simp only [hbit, hround, hsticky, Bool.decide_or]
      rfl
    · have hround : p * 2 ≤ 2 * (r + p * 1) := by omega
      have hsticky : (r + p * 1 ≠ 0 ∧ 2 * (r + p * 1) ≠ p * 2) ↔
          (p ≤ 2 * r ∨ r ≠ 0 ∧ 2 * r ≠ p) := by omega
      simp only [hbit, hround, hsticky, Bool.decide_or]
      rfl

lemma roundedMantissa_shiftRight (m k : Nat) :
    (ExtendedMantissa.ofMantissaAndAccuracy m .exact >>> k).roundedMantissa = halfEven m k := by
  have hpos : 0 < 2 ^ k := Nat.two_pow_pos k
  rw [shiftRight_exact, halfEven]
  generalize m % 2 ^ k = r
  generalize m / 2 ^ k = q
  generalize 2 ^ k = p at hpos ⊢
  by_cases hround : p ≤ 2 * r
  · rw [if_neg (Nat.not_lt.2 hround), decide_eq_true hround]
    by_cases htie : 2 * r = p
    · rw [if_neg (by omega), decide_eq_false (by omega)]
      rfl
    · rw [if_pos (by omega), decide_eq_true (by omega)]
      rfl
  · rw [if_pos (Nat.lt_of_not_le hround), decide_eq_false hround]
    cases decide (r ≠ 0 ∧ 2 * r ≠ p) <;> rfl

lemma targetExponent_totalExponent (m : Nat) (e : Int) :
    Format.binary64.targetExponent (totalExponent m e) = max (m.log2 + e - 52) (-1074) := by
  have hbits : (Format.binary64.mantissaBits : Int) = 53 := by decide
  have hmin : Format.binary64.minExponent = -1074 := by decide
  rw [Format.targetExponent, totalExponent, hbits, hmin]
  omega

/-- A significand of `53 + k` bits is shifted by `k`. -/
theorem shiftToTargetExponent_exact {e : Int} (hlog : m.log2 = 52 + k) (he : -1074 ≤ e + k) :
    shiftToTargetExponent .binary64 m e .exact =
      (ExtendedMantissa.ofMantissaAndAccuracy m .exact >>> k, e + k) := by
  have htarget : Format.binary64.targetExponent (totalExponent m e) = e + k := by
    rw [targetExponent_totalExponent]
    omega
  have hshift : (e + k - e).toNat = k := by omega
  rw [shiftToTargetExponent, htarget, shiftToExponent, hshift]

end Shift

/-- An unpacked number that stands for an integer, counted in units of `2 ^ -52`: a zero, or a
significand of 53 bits with an exponent that is not too large. -/
inductive Denotes : UnpackedFloat → Int → Prop
  | zero (s : Sign) : Denotes (.zero s) 0
  | finite (s : Sign) (m j : Nat) (h : 0 < m) : 2 ^ 52 ≤ m → m < 2 ^ 53 → j ≤ 1023 →
      Denotes (.finite s m (j - 52) h) (s.apply (m * 2 ^ j : Nat))

section Denotes
variable {u u' : UnpackedFloat} {v v' : Int}

lemma Denotes.neg (h : Denotes u v) : Denotes u.neg (-v) := by
  cases h with
  | zero s => exact .zero _
  | finite s m j h hlow hhigh hj =>
    have hsign : -s.apply (m * 2 ^ j : Nat) = (-s).apply (m * 2 ^ j : Nat) := by
      cases s with
      | negative => exact Int.neg_neg _
      | positive => rfl
    rw [hsign]
    exact .finite _ m j h hlow hhigh hj

/-- Rounding an exact significand of 53 bits or more. -/
theorem denotes_roundWithAccuracy {s : Sign} {m k j : Nat} {e : Int} (hm : m ≠ 0)
    (hlog : m.log2 = 52 + k) (he : e + k = j - 52) (hj : j ≤ 1022) :
    Denotes (roundWithAccuracy .binary64 s m e .exact) (s.apply (halfEven m k * 2 ^ j : Nat)) := by
  obtain ⟨hlow, hhigh⟩ := halfEven_bounds hm hlog
  have hfirst := shiftToTargetExponent_exact hlog (show -1074 ≤ e + k by omega)
  unfold roundWithAccuracy
  rw [hfirst]
  dsimp only
  rw [roundedMantissa_shiftRight, he]
  generalize halfEven m k = r at hlow hhigh ⊢
  obtain hlt | rfl := Nat.lt_or_eq_of_le hhigh
  · have hlog' : r.log2 = 52 + 0 := (Nat.log2_eq_iff (by omega)).2 ⟨hlow, hlt⟩
    rw [shiftToTargetExponent_exact hlog' (by omega)]
    have hr : ¬ r = 0 := by omega
    have hexponent : (j : Int) - 52 + (0 : Nat) = j - 52 := by omega
    change Denotes (if h : r = 0 then .zero s else .finite s r (j - 52 + (0 : Nat)) _) _
    rw [dif_neg hr, hexponent]
    exact .finite s r j _ hlow hlt (by omega)
  · have hlog' : (2 ^ 53 : Nat).log2 = 52 + 1 := Nat.log2_two_pow
    have hexponent : (j : Int) - 52 + (1 : Nat) = (j + 1 : Nat) - 52 := by omega
    rw [shiftToTargetExponent_exact hlog' (by omega), two_pow_carry]
    change Denotes (.finite s (2 ^ 52) (j - 52 + (1 : Nat)) _) _
    rw [hexponent]
    exact .finite s (2 ^ 52) (j + 1) _ (by decide) (by decide) (by omega)

lemma ofBitVec_unpackSign (s : Sign) (e : BitVec 11) (m : BitVec 52) :
    Sign.ofBitVec (unpackSign (packComponents .binary64 s e m)) = s := by
  have hsign : unpackSign (packComponents .binary64 s e m) = s.toBitVec := by
    rw [packComponents, BitVec.append_assoc]
    exact BitVec.extractLsb'_append_eq_left
  rw [hsign]
  cases s <;> rfl

/-- A significand of 53 bits is packed without its first one. -/
theorem pack_finite {s : Sign} {m j : Nat} (h : 0 < m) (hlow : 2 ^ 52 ≤ m) (hhigh : m < 2 ^ 53)
    (hj : j ≤ 1023) :
    UnpackedFloat.pack .binary64 (.finite s m (j - 52) h) =
      packComponents .binary64 s (BitVec.ofNat 11 (j + 1023)) (BitVec.ofNat 52 m) := by
  have hlog : m.log2 + 1 = Format.binary64.mantissaBits :=
    congrArg (· + 1) ((Nat.log2_eq_iff (by omega)).2 ⟨hlow, hhigh⟩)
  have hbias : (Format.binary64.exponentBias : Int) = 1023 := by decide
  have hexponent : ((j : Int) - 52 + Format.binary64.exponentBias + (52 : Nat)).toNat =
      j + 1023 := by
    omega
  change (if 2 ^ 11 ≤ ((j : Int) - 52 + Format.binary64.exponentBias + (52 : Nat)).toNat + 1 then
      packedInfinity .binary64 s
    else if m.log2 + 1 = Format.binary64.mantissaBits then
      packComponents .binary64 s
        (BitVec.ofNat 11 ((j : Int) - 52 + Format.binary64.exponentBias + (52 : Nat)).toNat)
        (BitVec.ofNat 52 m)
    else packComponents .binary64 s 0#11 (BitVec.ofNat 52 m)) = _
  rw [hexponent, if_neg (by omega), if_pos hlog]

lemma Denotes.unpack_pack (h : Denotes u v) :
    UnpackedFloat.unpack .binary64 (UnpackedFloat.pack .binary64 u) = u := by
  cases h with
  | zero s => cases s <;> rfl
  | finite s m j h hlow hhigh hj =>
    have hbias : (Format.binary64.exponentBias : Int) = 1023 := by decide
    have hfield : (BitVec.ofNat 11 (j + 1023)).toNat = j + 1023 := Nat.mod_eq_of_lt (by omega)
    have hne (x : BitVec 11) (hx : x.toNat ≠ j + 1023) : BitVec.ofNat 11 (j + 1023) ≠ x := by
      rintro rfl
      exact hx hfield
    have hfinite := hne (-1#11) (show 2047 ≠ j + 1023 by omega)
    have hnormal := hne 0#11 (show 0 ≠ j + 1023 by omega)
    have hmantissa : (1#1 ++ BitVec.ofNat 52 m).toNat = m := by
      have hlt : (BitVec.ofNat 52 m).toNat < 2 ^ 52 := BitVec.isLt _
      rw [BitVec.toNat_append, ← Nat.shiftLeft_add_eq_or_of_lt hlt]
      change 2 ^ 52 + m % 2 ^ 52 = m
      omega
    have hdiff : ((j + 1023 : Nat) : Int) - (Format.binary64.exponentBias + (52 : Nat)) =
        j - 52 := by
      omega
    rw [pack_finite h hlow hhigh hj]
    unfold UnpackedFloat.unpack
    dsimp only
    rw [ofBitVec_unpackSign, unpackExponent_packComponents, if_neg hfinite, if_neg hnormal, hfield]
    rw [finite.injEq, unpackMantissa_packComponents]
    exact ⟨rfl, hmantissa, hdiff⟩

/-- Packing a number loses nothing of it. -/
theorem Denotes.repacked (h : Denotes u v) :
    Denotes (UnpackedFloat.unpack .binary64 (UnpackedFloat.pack .binary64 u)) v := by
  rw [h.unpack_pack]
  exact h

lemma scaled_lt {m m' j j' : Nat} (hhigh : m < 2 ^ 53) (hlow : 2 ^ 52 ≤ m') (hj : j < j') :
    m * 2 ^ j < m' * 2 ^ j' := by
  calc m * 2 ^ j < 2 ^ 53 * 2 ^ j := Nat.mul_lt_mul_of_pos_right hhigh (Nat.two_pow_pos j)
    _ = 2 ^ 52 * 2 ^ (j + 1) := two_pow_carry j
    _ ≤ m' * 2 ^ j' := Nat.mul_le_mul hlow (Nat.pow_le_pow_right Nat.two_pos hj)

lemma compare_congr {a b c d : Int} (hlt : a < b ↔ c < d) (hgt : b < a ↔ d < c) :
    compare a b = compare c d := by
  obtain h | h | h := Int.lt_trichotomy a b
  · rw [Int.compare_eq_lt.2 h, Int.compare_eq_lt.2 (hlt.1 h)]
  · have hcd : c = d := by omega
    rw [Int.compare_eq_eq.2 h, Int.compare_eq_eq.2 hcd]
  · rw [Int.compare_eq_gt.2 h, Int.compare_eq_gt.2 (hgt.1 h)]

/-- Order of significands within one exponent, and of exponents otherwise, is order of numbers. -/
theorem compare_scaled {m m' : Nat} (j j' : Nat) (hlow : 2 ^ 52 ≤ m) (hhigh : m < 2 ^ 53)
    (hlow' : 2 ^ 52 ≤ m') (hhigh' : m' < 2 ^ 53) :
    (compare ((j : Int) - 52) (j' - 52)).then (compare m m') =
      compare ((m * 2 ^ j : Nat) : Int) (m' * 2 ^ j' : Nat) := by
  obtain hlt | rfl | hlt := Nat.lt_trichotomy j j'
  · rw [Int.compare_eq_lt.2 (show (j : Int) - 52 < j' - 52 by omega),
      Int.compare_eq_lt.2 (Int.ofNat_lt.2 (scaled_lt hhigh hlow' hlt))]
    rfl
  · have hpos : 0 < 2 ^ j := Nat.two_pow_pos j
    rw [Int.compare_eq_eq.2 rfl, Ordering.eq_then]
    obtain hlt | rfl | hlt := Nat.lt_trichotomy m m'
    · rw [Nat.compare_eq_lt.2 hlt,
        Int.compare_eq_lt.2 (Int.ofNat_lt.2 (Nat.mul_lt_mul_of_pos_right hlt hpos))]
    · rw [Nat.compare_eq_eq.2 rfl, Int.compare_eq_eq.2 rfl]
    · rw [Nat.compare_eq_gt.2 hlt,
        Int.compare_eq_gt.2 (Int.ofNat_lt.2 (Nat.mul_lt_mul_of_pos_right hlt hpos))]
  · rw [Int.compare_eq_gt.2 (show (j' : Int) - 52 < j - 52 by omega),
      Int.compare_eq_gt.2 (Int.ofNat_lt.2 (scaled_lt hhigh' hlow hlt))]
    rfl

lemma Denotes.compare_eq (h : Denotes u v) (h' : Denotes u' v') :
    u.compare u' = some (compare v v') := by
  have hpos : ∀ m j : Nat, 2 ^ 52 ≤ m → (0 : Int) < (m * 2 ^ j : Nat) := fun m j hm =>
    Int.natCast_pos.2 (Nat.mul_pos (by omega) (Nat.two_pow_pos j))
  cases h with
  | zero s =>
    cases h' with
    | zero s' => rfl
    | finite s' m' j' _ hlow' _ _ =>
      have hv := hpos m' j' hlow'
      cases s' with
      | positive => exact congrArg some (Int.compare_eq_lt.2 hv).symm
      | negative => exact congrArg some (Int.compare_eq_gt.2 (Int.neg_neg_of_pos hv)).symm
  | finite s m j _ hlow hhigh _ =>
    have hv := hpos m j hlow
    cases h' with
    | zero s' =>
      cases s with
      | positive => exact congrArg some (Int.compare_eq_gt.2 hv).symm
      | negative => exact congrArg some (Int.compare_eq_lt.2 (Int.neg_neg_of_pos hv)).symm
    | finite s' m' j' _ hlow' hhigh' _ =>
      have hv' := hpos m' j' hlow'
      have hscaled := compare_scaled j j' hlow hhigh hlow' hhigh'
      cases s with
      | positive =>
        cases s' with
        | positive => exact congrArg some hscaled
        | negative =>
          exact congrArg some (Int.compare_eq_gt.2 (Int.lt_trans (Int.neg_neg_of_pos hv') hv)).symm
      | negative =>
        cases s' with
        | positive =>
          exact congrArg some (Int.compare_eq_lt.2 (Int.lt_trans (Int.neg_neg_of_pos hv) hv')).symm
        | negative =>
          have hneg := compare_congr (a := -(m * 2 ^ j : Nat)) (b := -(m' * 2 ^ j' : Nat))
            Int.neg_lt_neg_iff Int.neg_lt_neg_iff
          change some _ = some (compare (-(m * 2 ^ j : Nat) : Int) (-(m' * 2 ^ j' : Nat)))
          rw [hneg, ← Int.compare_swap (m * 2 ^ j : Nat), ← hscaled]

end Denotes

section Integers
variable {n : Nat}

/-- A number with zeros behind it, scaled down again. -/
theorem denotes_round_scaled (hn : n ≠ 0) {t : Nat} (ht : 52 ≤ n.log2 + t)
    (hlog : n.log2 ≤ 1022) :
    Denotes (roundWithAccuracy .binary64 .positive (n * 2 ^ t) (-t) .exact)
      (nearestNat n * 2 ^ 52 : Nat) := by
  obtain ⟨k, hk⟩ := Nat.exists_eq_add_of_le ht
  have hround := denotes_roundWithAccuracy (s := .positive) (e := -t) (mul_two_pow_ne_zero hn t)
    ((log2_mul_two_pow hn t).trans hk) (by omega) hlog
  rw [halfEven_mul_eq_nearestNat hk] at hround
  exact hround

/-- A significand of 53 bits is not rounded. -/
theorem roundWithAccuracy_of_lt {s : Sign} {m : Nat} {e : Int} (hlow : 2 ^ 52 ≤ m)
    (hhigh : m < 2 ^ 53) (he : -1074 ≤ e) :
    roundWithAccuracy .binary64 s m e .exact = .finite s m e (by omega) := by
  have hlog : m.log2 = 52 + 0 := (Nat.log2_eq_iff (by omega)).2 ⟨hlow, hhigh⟩
  have hexponent : e + (0 : Nat) = e := by omega
  have hshift := shiftToTargetExponent_exact hlog (show -1074 ≤ e + (0 : Nat) by omega)
  rw [hexponent] at hshift
  unfold roundWithAccuracy
  rw [hshift]
  dsimp only
  rw [roundedMantissa_shiftRight, halfEven_zero, hshift]
  dsimp only
  exact dif_neg (show ¬ m = 0 by omega)

/-- A number of at most 53 bits is given the zeros that make them 53. -/
theorem ofNat_eq_finite (hn : n ≠ 0) {t : Nat} (ht : n.log2 + t = 52) :
    ∃ h, UnpackedFloat.ofNat .binary64 n = .finite .positive (n * 2 ^ t) (-t) h ∧
      Denotes (.finite .positive (n * 2 ^ t) (-t) h) (nearestNat n * 2 ^ 52 : Nat) := by
  obtain ⟨hlow, hhigh⟩ :=
    (Nat.log2_eq_iff (mul_two_pow_ne_zero hn t)).1 ((log2_mul_two_pow hn t).trans ht)
  have hround := roundWithAccuracy_of_lt (s := .positive) (e := -t) hlow hhigh (by omega)
  have hdenotes := denotes_round_scaled hn (Nat.le_of_eq ht.symm) (by omega)
  have hpositive : compare (n : Int) 0 = .gt := Int.compare_eq_gt.2 (by omega)
  have htarget : Format.binary64.targetExponent (totalExponent n 0) = -t := by
    rw [targetExponent_totalExponent]
    omega
  have hshift : (0 - (-t : Int)).toNat = t := by omega
  have hexponent : (0 : Int) - t = -t := by omega
  rw [hround] at hdenotes
  refine ⟨by omega, ?_, hdenotes⟩
  unfold UnpackedFloat.ofNat UnpackedFloat.ofInt UnpackedFloat.normalize
  rw [hpositive]
  dsimp only
  unfold UnpackedFloat.round
  rw [Int.toNat_natCast, htarget]
  unfold decreaseExponent
  dsimp only
  rw [hshift, hexponent, Nat.shiftLeft_eq]
  exact hround

lemma unpack_mul (x y : Float) : (x * y).toModel.unpack =
    UnpackedFloat.unpack .binary64 (UnpackedFloat.pack .binary64
      (UnpackedFloat.mul .binary64 x.toModel.unpack y.toModel.unpack)) := rfl

lemma unpack_toFloat (x : UInt64) : x.toFloat.toModel.unpack =
    UnpackedFloat.unpack .binary64 (UnpackedFloat.pack .binary64
      (UnpackedFloat.ofNat .binary64 x.toNat)) := rfl

lemma unpack_one : (Float.ofBits 0x3FF0000000000000).toModel.unpack =
    .finite .positive (2 ^ 52) (-52) (by decide) := rfl

/-- Below `2 ^ 53`, a number is converted as it is and multiplied by one. -/
theorem denotes_ofNat_of_lt (hn : n ≠ 0) (h : n < 2 ^ 53) :
    Denotes (Float.ofNat n).toModel.unpack (nearestNat n * 2 ^ 52 : Nat) := by
  have hfast : n < 2 ^ 53 ∧ 0 ≤ 22 := ⟨h, by omega⟩
  have hproduct : Float.ofNat n = n.toUInt64.toFloat * Float.ofBits 0x3FF0000000000000 := by
    change Float.ofScientific n false 0 = _
    rw [Float.ofScientific, dif_pos hfast]
    rfl
  have hword : n.toUInt64.toNat = n := Nat.mod_eq_of_lt (by omega)
  have hlog : n.log2 < 53 := (Nat.log2_lt hn).2 h
  obtain ⟨t, ht⟩ := Nat.exists_eq_add_of_le (Nat.le_of_lt_succ hlog)
  obtain ⟨hpos, hfinite, hdenotes⟩ := ofNat_eq_finite hn ht.symm
  have hround := denotes_round_scaled hn (t := t + 52) (by omega) (by omega)
  have hsignificand : n * 2 ^ t * 2 ^ 52 = n * 2 ^ (t + 52) := by
    rw [Nat.mul_assoc, ← Nat.pow_add]
  have hexponent : (-t : Int) + -52 = -(t + 52 : Nat) := by omega
  rw [hproduct, unpack_mul, unpack_toFloat, unpack_one, hword, hfinite, hdenotes.unpack_pack]
  change Denotes (UnpackedFloat.unpack .binary64 (UnpackedFloat.pack .binary64
    (roundWithAccuracy .binary64 .positive (n * 2 ^ t * 2 ^ 52) (-t + -52) .exact))) _
  rw [hsignificand, hexponent]
  exact hround.repacked

/-- From `2 ^ 53` on, a number is scaled and rounded. -/
theorem denotes_ofNat_of_le (h : 2 ^ 53 ≤ n) (hlog : n.log2 ≤ 1022) :
    Denotes (Float.ofNat n).toModel.unpack (nearestNat n * 2 ^ 52 : Nat) := by
  have hn : n ≠ 0 := by omega
  have hslow : ¬ (n < 2 ^ 53 ∧ 0 ≤ 22) := by omega
  have hscientific : Float.ofNat n = .ofModel (.ofScientific n 0) := by
    change Float.ofScientific n false 0 = _
    rw [Float.ofScientific, dif_neg hslow]
    rfl
  have hlarge : ¬ (0 : Int) > 2 ^ Format.binary64.exponentBits := by decide
  have hbits : (2 : Int) ^ Format.binary64.exponentBits = 2048 := by decide
  have hproduct : UnpackedFloat.ofScientific .binary64 n 0 =
      roundWithAccuracy .binary64 .positive (n * 2 ^ 53) (-(53 : Nat)) .exact := by
    unfold UnpackedFloat.ofScientific
    rw [dif_neg hn, if_neg hlarge, if_neg (by omega), if_pos (Int.le_refl 0)]
    change roundWithAccuracy .binary64 .positive (n <<< 53 * 1) (-(53 : Nat)) .exact = _
    rw [Nat.mul_one, Nat.shiftLeft_eq]
  have hround := denotes_round_scaled hn (t := 53) (by omega) hlog
  rw [hscientific]
  change Denotes (UnpackedFloat.unpack .binary64
    (UnpackedFloat.pack .binary64 (UnpackedFloat.ofScientific .binary64 n 0))) _
  rw [hproduct]
  exact hround.repacked

lemma denotes_ofNat (hlog : n.log2 ≤ 1022) :
    Denotes (Float.ofNat n).toModel.unpack (nearestNat n * 2 ^ 52 : Nat) := by
  by_cases hn : n = 0
  · rw [hn]
    exact .zero .positive
  · obtain h | h := Nat.lt_or_ge n (2 ^ 53)
    · exact denotes_ofNat_of_lt hn h
    · exact denotes_ofNat_of_le h hlog

lemma unpack_neg (x : Float) : x.neg.toModel.unpack =
    UnpackedFloat.unpack .binary64 (UnpackedFloat.pack .binary64 x.toModel.unpack.neg) := rfl

lemma denotes_ofInt {i : Int} (hlog : i.natAbs.log2 ≤ 1022) :
    Denotes (Float.ofInt i).toModel.unpack (nearest i * 2 ^ 52) := by
  obtain n | n := i
  · exact denotes_ofNat hlog
  · have hneg := (denotes_ofNat (n := n + 1) hlog).neg
    change Denotes (Float.ofNat (n + 1)).neg.toModel.unpack _
    rw [unpack_neg, nearest, Int.neg_mul]
    exact hneg.repacked

end Integers

namespace Binary64

lemma unpack_toFloat_ofFloat (x : Float) : (ofFloat x).toFloat.toModel.unpack =
    UnpackedFloat.unpack .binary64 (UnpackedFloat.pack .binary64 x.toModel.unpack) := rfl

/-- An integer stands for the nearest one of 53 significant bits. -/
theorem denotes_ofInt64 (i : Int64) :
    Denotes (ofInt64 i).toFloat.toModel.unpack (nearest i.toInt * 2 ^ 52) := by
  have hlog : i.toInt.natAbs.log2 ≤ 1022 := by
    have hlow := i.le_toInt
    have hhigh := i.toInt_lt
    by_cases hzero : i.toInt.natAbs = 0
    · rw [hzero]
      decide
    · have hlt := (Nat.log2_lt hzero).2 (show i.toInt.natAbs < 2 ^ 64 by omega)
      omega
  rw [ofInt64, unpack_toFloat_ofFloat]
  exact (denotes_ofInt hlog).repacked

section Order
variable (i j : Int64)

lemma compare_ofInt64 :
    (ofInt64 i).toFloat.toModel.unpack.compare (ofInt64 j).toFloat.toModel.unpack =
      some (compare (nearest i.toInt) (nearest j.toInt)) := by
  have hpos : (0 : Int) < 2 ^ 52 := by decide
  rw [(denotes_ofInt64 i).compare_eq (denotes_ofInt64 j)]
  exact congrArg some (compare_congr (Int.mul_lt_mul_right hpos) (Int.mul_lt_mul_right hpos))

theorem eqv_ofInt64 : (ofInt64 i).eqv (ofInt64 j) = true ↔ nearest i.toInt = nearest j.toInt := by
  change (UnpackedFloat.compare _ _ == some .eq) = true ↔ _
  rw [compare_ofInt64, beq_iff_eq, Option.some.injEq, Int.compare_eq_eq]

theorem lt_ofInt64 : (ofInt64 i).lt (ofInt64 j) = true ↔ nearest i.toInt < nearest j.toInt := by
  rw [lt, decide_eq_true_iff]
  change decide ((UnpackedFloat.compare _ _ == some .lt) = true) = true ↔ _
  rw [compare_ofInt64, decide_eq_true_iff, beq_iff_eq, Option.some.injEq, Int.compare_eq_lt]

theorem le_ofInt64 : (ofInt64 i).le (ofInt64 j) = true ↔ nearest i.toInt ≤ nearest j.toInt := by
  rw [le, decide_eq_true_iff]
  change decide ((UnpackedFloat.compare _ _).any (·.isLE) = true) = true ↔ _
  rw [compare_ofInt64, decide_eq_true_iff, Option.any_some, Int.isLE_compare]

end Order

end Binary64

end KeyedTables
