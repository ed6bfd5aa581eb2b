import KeyedTables.Table.Index
import Mathlib.NumberTheory.Bertrand

/-!
# How many buckets

Trial division by odd numbers up to the square root tells the primes from the other numbers, and
the search upwards for a prime comes to an end, by Bertrand's postulate before the number has
doubled. So more than three keys have as many buckets as the least prime that is five quarters of
their number or more: there is never a key without a bucket, and never fewer buckets for more keys.
-/
namespace KeyedTables

/-- The divisors that are tried differ from the first one by an even number. -/
theorem hasDivisorFrom_iff {n d : Nat} (hd : 0 < d) :
    hasDivisorFrom n d = true ↔ ∃ k, (d + 2 * k) * (d + 2 * k) ≤ n ∧ d + 2 * k ∣ n := by
  fun_induction hasDivisorFrom n d with
  | case1 d hsquare ih =>
    rw [Bool.or_eq_true, beq_iff_eq, ih (by omega)]
    constructor
    · rintro (hmod | ⟨k, hle, hdvd⟩)
      · exact ⟨0, hsquare.2, Nat.dvd_of_mod_eq_zero hmod⟩
      · have hk : d + 2 * (k + 1) = d + 2 + 2 * k := by omega
        exact ⟨k + 1, by rwa [hk], by rwa [hk]⟩
    · rintro ⟨k, hle, hdvd⟩
      cases k with
      | zero => exact Or.inl (Nat.mod_eq_zero_of_dvd hdvd)
      | succ k =>
        have hk : d + 2 * (k + 1) = d + 2 + 2 * k := by omega
        rw [hk] at hle hdvd
        exact Or.inr ⟨k, hle, hdvd⟩
  | case2 d hsquare =>
    constructor
    · intro h
      cases h
    · rintro ⟨k, hle, _⟩
      have hlt : n < d * d := by
        by_contra hge
        exact hsquare ⟨hd, by omega⟩
      have hmul : d * d ≤ (d + 2 * k) * (d + 2 * k) :=
        Nat.mul_le_mul (Nat.le_add_right d _) (Nat.le_add_right d _)
      omega

/-- An odd number that is not prime has an odd divisor of at least three up to its square root. -/
theorem hasDivisorFrom_three_iff {n : Nat} (hn : 2 ≤ n) (hodd : n % 2 ≠ 0) :
    hasDivisorFrom n 3 = true ↔ ¬ n.Prime := by
  rw [hasDivisorFrom_iff (by decide)]
  constructor
  · rintro ⟨k, hle, hdvd⟩ hprime
    obtain hone | hself := hprime.eq_one_or_self_of_dvd _ hdvd
    · omega
    · rw [hself] at hle
      have hlt : n * 1 < n * n := Nat.mul_lt_mul_of_pos_left hn (by omega)
      omega
  · intro hprime
    have hdvd := Nat.minFac_dvd n
    have htwo : 2 ≤ n.minFac := (Nat.minFac_prime (by omega)).two_le
    have hsquare := Nat.minFac_sq_le_self (by omega) hprime
    have hminodd : n.minFac % 2 ≠ 0 := by
      intro heven
      exact hodd (Nat.mod_eq_zero_of_dvd ((Nat.dvd_of_mod_eq_zero heven).trans hdvd))
    refine ⟨(n.minFac - 3) / 2, ?_⟩
    have hmin : 3 + 2 * ((n.minFac - 3) / 2) = n.minFac := by omega
    rw [hmin, ← Nat.pow_two]
    exact ⟨hsquare, hdvd⟩

/-- Trial division finds the primes. -/
theorem isPrime_iff (n : Nat) : isPrime n = true ↔ n.Prime := by
  unfold isPrime
  split
  · rename_i hlt
    constructor
    · intro h
      cases h
    · intro hprime
      exact absurd hprime.two_le (by omega)
  · rename_i hge
    split
    · rename_i heven
      rw [decide_eq_true_eq]
      constructor
      · rintro rfl
        exact Nat.prime_two
      · intro hprime
        obtain htwo | hodd := hprime.eq_two_or_odd
        · exact htwo
        · omega
    · rename_i hodd
      rw [Bool.not_eq_true', ← Bool.not_eq_true, hasDivisorFrom_three_iff (by omega) hodd, not_not]

/-- Going up from a number to the first prime, however far that is, ends at the second number. -/
inductive PrimeSearch : Nat → Nat → Prop
  | found {n : Nat} : isPrime n = true → PrimeSearch n n
  | next {n p : Nat} : isPrime n = false → PrimeSearch (n + 1) p → PrimeSearch n p

/-- A search that ends has found the least prime from where it began. -/
theorem PrimeSearch.isLeast {n p : Nat} (h : PrimeSearch n p) :
    IsLeast {q | n ≤ q ∧ q.Prime} p := by
  induction h with
  | found hprime => exact ⟨⟨Nat.le_refl _, (isPrime_iff _).1 hprime⟩, fun q hq => hq.1⟩
  | @next n p hprime _ ih =>
    obtain ⟨⟨hle, hp⟩, hleast⟩ := ih
    refine ⟨⟨by omega, hp⟩, fun q ⟨hq, hqprime⟩ => hleast ⟨?_, hqprime⟩⟩
    have hne : n ≠ q := by
      rintro rfl
      rw [(isPrime_iff n).2 hqprime] at hprime
      cases hprime
    omega

/-- With enough steps to reach a prime, the search is not cut off. -/
theorem primeSearch_primeFrom {fuel n p : Nat} (hp : p.Prime) (hle : n ≤ p) (hfuel : p ≤ n + fuel) :
    PrimeSearch n (primeFrom fuel n) := by
  induction fuel generalizing n with
  | zero =>
    have hn : n = p := by omega
    exact .found ((isPrime_iff n).2 (hn ▸ hp))
  | succ fuel ih =>
    rw [primeFrom]
    split
    · exact .found ‹_›
    · rename_i hprime
      have hne : n ≠ p := by
        rintro rfl
        exact hprime ((isPrime_iff n).2 hp)
      exact .next (Bool.eq_false_iff.2 hprime) (ih (by omega) (by omega))

lemma primeSearch_nextPrime (n : Nat) : PrimeSearch (max n 2) (nextPrime n) := by
  obtain ⟨p, hp, hlt, hle⟩ := Nat.exists_prime_lt_and_le_two_mul (max n 2) (by omega)
  exact primeSearch_primeFrom hp (by omega) (by omega)

lemma bucketCount_of_le {n : Nat} (hn : n ≤ 3) : bucketCount n = n := if_pos hn

lemma bucketCount_of_gt {n : Nat} (hn : 3 < n) : bucketCount n = nextPrime ((n * 5 + 3) / 4) :=
  if_neg (Nat.not_le.2 hn)

/-- More than three keys have as many buckets as the least prime of five quarters of their number
or more. -/
theorem isLeast_bucketCount {n : Nat} (hn : 3 < n) :
    IsLeast {p | p.Prime ∧ 5 * n ≤ 4 * p} (bucketCount n) := by
  obtain ⟨⟨hle, hp⟩, hleast⟩ := (primeSearch_nextPrime ((n * 5 + 3) / 4)).isLeast
  rw [bucketCount_of_gt hn]
  refine ⟨⟨hp, by omega⟩, fun q ⟨hq, hqle⟩ => hleast ⟨?_, hq⟩⟩
  have htwo := hq.two_le
  omega

lemma monotone_bucketCount : Monotone bucketCount := by
  intro n m hle
  by_cases hm : m ≤ 3
  · rw [bucketCount_of_le hm, bucketCount_of_le (by omega)]
    exact hle
  · obtain ⟨hprime, hload⟩ := (isLeast_bucketCount (by omega : 3 < m)).1
    by_cases hn : n ≤ 3
    · rw [bucketCount_of_le hn]
      omega
    · exact (isLeast_bucketCount (by omega)).2 ⟨hprime, by omega⟩

/-- Up to three keys have a bucket each. For more of them the search for a prime ends, and the
number of buckets is the least prime with which no more than four fifths of them are in use. -/
theorem bucketCount_sizing :
    (∀ n ≤ 3, bucketCount n = n) ∧
      (∀ n > 3, PrimeSearch (max ((n * 5 + 3) / 4) 2) (bucketCount n) ∧
        IsLeast {p | p.Prime ∧ 5 * n ≤ 4 * p} (bucketCount n) ∧ 5 * n ≤ 4 * bucketCount n) ∧
      (∀ n > 0, 0 < bucketCount n) ∧ Monotone bucketCount := by
  refine ⟨fun n hn => bucketCount_of_le hn, fun n hn => ?_, fun n hn => ?_, monotone_bucketCount⟩
  · have hleast := isLeast_bucketCount hn
    refine ⟨?_, hleast, hleast.1.2⟩
    rw [bucketCount_of_gt hn]
    exact primeSearch_nextPrime _
  · calc 0 < bucketCount 1 := by decide
      _ ≤ bucketCount n := monotone_bucketCount hn

/-- A thousand keys: every number from 1250 up to 1258 has a divisor. -/
theorem bucketCount_sizing_of_thousand_keys :
    3 < 1000 ∧ bucketCount 1000 = 1259 ∧
      IsLeast {p | p.Prime ∧ 5 * 1000 ≤ 4 * p} (bucketCount 1000) :=
  ⟨by decide, by decide +kernel, (bucketCount_sizing.2.1 1000 (by decide)).2.1⟩

end KeyedTables
