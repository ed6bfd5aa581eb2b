import KeyedTables.Number.Binary64
import Mathlib.Algebra.Order.Ring.Int

/-!
# Integers among the binary64 numbers

A binary64 number has 53 significant bits, so an integer of more bits becomes the nearest one that
needs no more, a tie going to the even significand. Numeric order and equality of two such numbers
are those of the nearest integers. These keep the order of the integers, but for large integers that
differ by little they may be equal.
-/
namespace KeyedTables

/-- The quotient of `m` and `2 ^ k`, rounded to the nearest integer, and to the even one of two. -/
def halfEven (m k : Nat) : Nat :=
  let q := m / 2 ^ k
  let r := m % 2 ^ k
  q + if 2 * r < 2 ^ k then 0 else if 2 ^ k < 2 * r then 1 else q % 2

/-- The nearest number of 53 significant bits. -/
def nearestNat (n : Nat) : Nat :=
  let k := n.log2 - 52
  halfEven n k * 2 ^ k

/-- The nearest integer of 53 significant bits. -/
def nearest : Int → Int
  | .ofNat n => nearestNat n
  | .negSucc n => -nearestNat (n + 1)

/-- An integer of at most 53 significant bits. -/
def Significant (x : Int) : Prop := ∃ (a : Int) (b : Nat), a.natAbs < 2 ^ 53 ∧ x = a * (2 ^ b : Nat)

section HalfEven
variable {m n k : Nat}

lemma div_le_halfEven (m k : Nat) : m / 2 ^ k ≤ halfEven m k := Nat.le_add_right _ _

lemma halfEven_le (m k : Nat) : halfEven m k ≤ m / 2 ^ k + 1 := by
  unfold halfEven
  dsimp only
  split_ifs <;> omega

theorem halfEven_zero (m : Nat) : halfEven m 0 = m := by
  simp [halfEven, Nat.mod_one]

lemma halfEven_mono (h : m ≤ n) (k : Nat) : halfEven m k ≤ halfEven n k := by
  by_cases hq : m / 2 ^ k = n / 2 ^ k
  · have hm := Nat.div_add_mod m (2 ^ k)
    have hn := Nat.div_add_mod n (2 ^ k)
    rw [hq] at hm
    have hr : m % 2 ^ k ≤ n % 2 ^ k := by omega
    unfold halfEven
    dsimp only
    rw [hq]
    generalize m % 2 ^ k = r, n % 2 ^ k = r', n / 2 ^ k = q, 2 ^ k = p at hr ⊢
    split_ifs <;> omega
  · have hlt : m / 2 ^ k < n / 2 ^ k := Nat.lt_of_le_of_ne (Nat.div_le_div_right h) hq
    exact Nat.le_trans (halfEven_le m k) (Nat.le_trans hlt (div_le_halfEven n k))

/-- No multiple of `2 ^ k` is nearer. -/
theorem natAbs_halfEven_le (m k y : Nat) :
    ((halfEven m k * 2 ^ k : Nat) - m : Int).natAbs ≤ ((y * 2 ^ k : Nat) - m : Int).natAbs := by
  have hm := Nat.div_add_mod m (2 ^ k)
  have hr : m % 2 ^ k < 2 ^ k := Nat.mod_lt m (Nat.two_pow_pos k)
  have hrounded : (halfEven m k = m / 2 ^ k ∧ 2 * (m % 2 ^ k) ≤ 2 ^ k) ∨
      (halfEven m k = m / 2 ^ k + 1 ∧ 2 ^ k ≤ 2 * (m % 2 ^ k)) := by
    unfold halfEven
    dsimp only
    split_ifs <;> omega
  rw [Nat.mul_comm] at hm
  generalize halfEven m k = h at hrounded ⊢
  generalize m / 2 ^ k = q at hm hrounded
  generalize m % 2 ^ k = r at hm hr hrounded
  generalize 2 ^ k = p at hm hr hrounded ⊢
  obtain hy | hy := Nat.lt_or_ge q y
  · have hle : (q + 1) * p ≤ y * p := Nat.mul_le_mul_right p hy
    rw [Nat.succ_mul] at hle
    obtain ⟨rfl, hhalf⟩ | ⟨rfl, hhalf⟩ := hrounded
    · omega
    · rw [Nat.succ_mul]
      omega
  · have hle : y * p ≤ q * p := Nat.mul_le_mul_right p hy
    obtain ⟨rfl, hhalf⟩ | ⟨rfl, hhalf⟩ := hrounded
    · omega
    · rw [Nat.succ_mul]
      omega

/-- Zeros behind the number are cut off without a loss. -/
theorem halfEven_mul_two_pow (n j t : Nat) : halfEven (n * 2 ^ t) (j + t) = halfEven n j := by
  have ht : 0 < 2 ^ t := Nat.two_pow_pos t
  have hlt : ∀ a b : Nat, a * 2 ^ t < b * 2 ^ t ↔ a < b := fun a b => Nat.mul_lt_mul_right ht
  unfold halfEven
  dsimp only
  rw [Nat.pow_add, Nat.mul_div_mul_right n _ ht, Nat.mul_mod_mul_right, ← Nat.mul_assoc]
  simp only [hlt]

lemma halfEven_mul_self (n t : Nat) : halfEven (n * 2 ^ t) t = n := by
  have h := halfEven_mul_two_pow n 0 t
  rwa [Nat.zero_add, halfEven_zero] at h

/-- The power that is carried over to, as one of 53 bits. -/
theorem two_pow_carry (b : Nat) : 2 ^ 53 * 2 ^ b = 2 ^ 52 * 2 ^ (b + 1) := by
  rw [← Nat.pow_add, ← Nat.pow_add]
  congr 1
  omega

/-- Of `53 + k` bits, rounding leaves 53; only `2 ^ 53` itself has one more. -/
theorem halfEven_bounds (hm : m ≠ 0) (hlog : m.log2 = 52 + k) :
    2 ^ 52 ≤ halfEven m k ∧ halfEven m k ≤ 2 ^ 53 := by
  obtain ⟨hlow, hhigh⟩ := (Nat.log2_eq_iff hm).1 hlog
  have hpos : 0 < 2 ^ k := Nat.two_pow_pos k
  constructor
  · refine Nat.le_trans ?_ (div_le_halfEven m k)
    rw [Nat.le_div_iff_mul_le hpos, ← Nat.pow_add]
    exact hlow
  · refine Nat.le_trans (halfEven_le m k) ?_
    rw [Nat.add_right_comm] at hhigh
    rw [Nat.succ_le_iff, Nat.div_lt_iff_lt_mul hpos, ← Nat.pow_add]
    exact hhigh

end HalfEven

section Nearest
variable {m n : Nat} {i j : Int}

lemma nearestNat_of_le (h : n ≤ 2 ^ 53) : nearestNat n = n := by
  obtain rfl | hlt := Nat.eq_or_lt_of_le h
  · decide
  · have hlog : n.log2 - 52 = 0 := by
      by_cases hn : n = 0
      · rw [hn]
        rfl
      · have := (Nat.log2_lt hn).2 hlt
        omega
    rw [nearestNat, hlog, halfEven_zero, Nat.pow_zero, Nat.mul_one]

/-- The leading bit stays where it is, unless all bits are carried over into the next one. -/
theorem nearestNat_bounds (hn : n ≠ 0) :
    2 ^ n.log2 ≤ nearestNat n ∧ nearestNat n ≤ 2 ^ (n.log2 + 1) := by
  by_cases hlog : n.log2 < 52
  · have hlt : n < 2 ^ 52 := (Nat.log2_lt hn).1 hlog
    rw [nearestNat_of_le (by omega)]
    exact ⟨Nat.log2_self_le hn, Nat.le_of_lt Nat.lt_log2_self⟩
  · have hk : n.log2 = 52 + (n.log2 - 52) := by omega
    obtain ⟨hlow, hhigh⟩ := halfEven_bounds hn hk
    unfold nearestNat
    dsimp only
    generalize n.log2 - 52 = k at hk hlow hhigh ⊢
    rw [hk, Nat.add_right_comm, Nat.pow_add, Nat.pow_add]
    exact ⟨Nat.mul_le_mul_right _ hlow, Nat.mul_le_mul_right _ hhigh⟩

lemma nearestNat_mono (h : m ≤ n) : nearestNat m ≤ nearestNat n := by
  by_cases hm : m = 0
  · rw [hm]
    exact Nat.zero_le _
  · have hn : n ≠ 0 := by omega
    by_cases hlog : m.log2 = n.log2
    · unfold nearestNat
      rw [hlog]
      exact Nat.mul_le_mul_right _ (halfEven_mono h _)
    · have hle : m.log2 ≤ n.log2 := (Nat.le_log2 hn).2 (Nat.le_trans (Nat.log2_self_le hm) h)
      have hpow : 2 ^ (m.log2 + 1) ≤ 2 ^ n.log2 := Nat.pow_le_pow_right Nat.two_pos (by omega)
      exact Nat.le_trans (nearestNat_bounds hm).2 (Nat.le_trans hpow (nearestNat_bounds hn).1)

theorem mul_two_pow_ne_zero (hn : n ≠ 0) (t : Nat) : n * 2 ^ t ≠ 0 :=
  Nat.mul_ne_zero hn (Nat.ne_of_gt (Nat.two_pow_pos t))

theorem log2_mul_two_pow (hn : n ≠ 0) (t : Nat) : (n * 2 ^ t).log2 = n.log2 + t := by
  refine (Nat.log2_eq_iff (mul_two_pow_ne_zero hn t)).2 ⟨?_, ?_⟩
  · rw [Nat.pow_add]
    exact Nat.mul_le_mul_right _ (Nat.log2_self_le hn)
  · rw [Nat.add_right_comm, Nat.pow_add]
    exact Nat.mul_lt_mul_of_pos_right Nat.lt_log2_self (Nat.two_pow_pos t)

/-- However many zeros a number is given, it is rounded to the nearest one. -/
theorem halfEven_mul_eq_nearestNat {t k : Nat} (hk : n.log2 + t = 52 + k) :
    halfEven (n * 2 ^ t) k * 2 ^ n.log2 = nearestNat n * 2 ^ 52 := by
  unfold nearestNat
  dsimp only
  by_cases hlog : n.log2 ≤ 52
  · have hcut : n.log2 - 52 = 0 := by omega
    have ht : t = (52 - n.log2) + k := by omega
    have hpow : 2 ^ 52 = 2 ^ (52 - n.log2) * 2 ^ n.log2 := by
      rw [← Nat.pow_add]
      congr 1
      omega
    rw [ht, Nat.pow_add, ← Nat.mul_assoc, halfEven_mul_self, hcut, halfEven_zero, hpow]
    simp only [Nat.pow_zero, Nat.mul_one, Nat.mul_assoc]
  · have hcut : k = (n.log2 - 52) + t := by omega
    have hpow : 2 ^ n.log2 = 2 ^ (n.log2 - 52) * 2 ^ 52 := by
      rw [← Nat.pow_add]
      congr 1
      omega
    rw [hcut, halfEven_mul_two_pow, Nat.mul_assoc, ← hpow]

theorem nearest_mono (h : i ≤ j) : nearest i ≤ nearest j := by
  obtain m | m := i
  · obtain n | n := j
    · exact Int.ofNat_le.2 (nearestNat_mono (Int.ofNat_le.1 h))
    · have hneg : Int.negSucc n < Int.ofNat m :=
        Int.lt_of_lt_of_le (Int.negSucc_lt_zero n) (Int.natCast_nonneg m)
      exact absurd h (Int.not_le.2 hneg)
  · obtain n | n := j
    · exact Int.le_trans (Int.neg_nonpos_of_nonneg (Int.natCast_nonneg _)) (Int.natCast_nonneg _)
    · exact Int.neg_le_neg (Int.ofNat_le.2 (nearestNat_mono (by omega)))

lemma log2_of_ge (hn : 2 ^ 53 ≤ n) : n.log2 = 52 + (n.log2 - 52) := by
  have := (Nat.le_log2 (by omega)).2 (show 2 ^ 52 ≤ n by omega)
  omega

/-- No number of 53 significant bits is nearer. -/
theorem natAbs_nearestNat_le (n : Nat) {a b : Nat} (ha : a < 2 ^ 53) :
    ((nearestNat n : Int) - n).natAbs ≤ ((a * 2 ^ b : Nat) - n : Int).natAbs := by
  obtain hlt | hge := Nat.lt_or_ge n (2 ^ 53)
  · rw [nearestNat_of_le (Nat.le_of_lt hlt)]
    omega
  · have hk := log2_of_ge hge
    unfold nearestNat
    dsimp only
    generalize n.log2 - 52 = k at hk ⊢
    obtain hb | hb := Nat.lt_or_ge b k
    -- a finer number has its bits too far down: it is not above the power of two below `n`
    · have hlow : 2 ^ 52 * 2 ^ k ≤ n := by
        rw [← Nat.pow_add, ← hk]
        exact Nat.log2_self_le (by omega)
      have hfine : a * 2 ^ b ≤ 2 ^ 52 * 2 ^ k := by
        calc a * 2 ^ b ≤ 2 ^ 53 * 2 ^ b := Nat.mul_le_mul_right _ (Nat.le_of_lt ha)
          _ = 2 ^ 52 * 2 ^ (b + 1) := two_pow_carry b
          _ ≤ 2 ^ 52 * 2 ^ k := Nat.mul_le_mul_left _ (Nat.pow_le_pow_right Nat.two_pos hb)
      have hnearest := natAbs_halfEven_le n k (2 ^ 52)
      omega
    · have hcoarse : a * 2 ^ b = a * 2 ^ (b - k) * 2 ^ k := by
        rw [Nat.mul_assoc, ← Nat.pow_add, Nat.sub_add_cancel hb]
      rw [hcoarse]
      exact natAbs_halfEven_le n k _

lemma significant_nearestNat (n : Nat) : Significant (nearestNat n) := by
  obtain hlt | hge := Nat.lt_or_ge n (2 ^ 53)
  · refine ⟨n, 0, hlt, ?_⟩
    rw [nearestNat_of_le (Nat.le_of_lt hlt), Nat.pow_zero]
    exact (Int.mul_one _).symm
  · obtain ⟨_, hhigh⟩ := halfEven_bounds (by omega) (log2_of_ge hge)
    unfold nearestNat
    dsimp only
    generalize n.log2 - 52 = k at hhigh ⊢
    obtain hlt | hcarry := Nat.lt_or_eq_of_le hhigh
    · exact ⟨halfEven n k, k, hlt, Int.natCast_mul _ _⟩
    · rw [hcarry, two_pow_carry]
      exact ⟨(2 ^ 52 : Nat), k + 1, by decide, Int.natCast_mul _ _⟩

/-- The nearest integer has 53 significant bits at most. -/
theorem significant_nearest (i : Int) : Significant (nearest i) := by
  obtain n | n := i
  · exact significant_nearestNat n
  · obtain ⟨a, b, ha, hx⟩ := significant_nearestNat (n + 1)
    refine ⟨-a, b, by rwa [Int.natAbs_neg], ?_⟩
    rw [nearest, hx, Int.neg_mul]

/-- No integer of 53 significant bits is nearer. -/
theorem natAbs_nearest_le (i : Int) {x : Int} (hx : Significant x) :
    (nearest i - i).natAbs ≤ (x - i).natAbs := by
  obtain ⟨a, b, ha, rfl⟩ := hx
  have hpos : (0 : Int) ≤ (2 ^ b : Nat) := Int.natCast_nonneg _
  have hzero : ∀ n : Nat, ((nearestNat n : Int) - n).natAbs ≤ n := fun n => by
    have h := natAbs_nearestNat_le n (a := 0) (b := 0) (by decide)
    omega
  obtain n | n := i
  · change ((nearestNat n : Int) - n).natAbs ≤ (a * (2 ^ b : Nat) - (n : Int)).natAbs
    obtain m | m := a
    · exact natAbs_nearestNat_le n ha
    · have hneg : Int.negSucc m * (2 ^ b : Nat) ≤ 0 :=
        Int.mul_nonpos_of_nonpos_of_nonneg (Int.le_of_lt (Int.negSucc_lt_zero m)) hpos
      have := hzero n
      omega
  · have hn : Int.negSucc n = -((n + 1 : Nat) : Int) := rfl
    rw [nearest, hn]
    obtain m | m := a
    · have hge : 0 ≤ Int.ofNat m * (2 ^ b : Nat) := Int.mul_nonneg (Int.natCast_nonneg m) hpos
      have := hzero (n + 1)
      omega
    · have hm : Int.negSucc m * (2 ^ b : Nat) = -(((m + 1) * 2 ^ b : Nat) : Int) := by
        rw [Int.natCast_mul, ← Int.neg_mul]
        rfl
      have hnearest : ((nearestNat (n + 1) : Int) - (n + 1 : Nat)).natAbs ≤
          (((m + 1) * 2 ^ b : Nat) - (n + 1 : Nat) : Int).natAbs := natAbs_nearestNat_le (n + 1) ha
      rw [hm]
      omega

/-- Up to `2 ^ 53`, integers are exact. -/
theorem nearest_of_natAbs_le (h : i.natAbs ≤ 2 ^ 53) : nearest i = i := by
  obtain n | n := i
  · exact congrArg Int.ofNat (nearestNat_of_le h)
  · have hn : nearestNat (n + 1) = n + 1 := nearestNat_of_le h
    rw [nearest, hn]
    rfl

end Nearest

end KeyedTables
