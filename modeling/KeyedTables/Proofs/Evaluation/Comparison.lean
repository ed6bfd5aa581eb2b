import KeyedTables.Evaluation.Call
import KeyedTables.Proofs.Number.Conversion
import Mathlib.Data.Int.ConditionallyCompleteOrder
import Mathlib.Data.List.Chain
import Mathlib.Data.List.Nodup
import Mathlib.Order.ConditionallyCompleteLattice.Basic

/-!
# Comparison of integers

Numbers are compared as binary64 numbers, integers as well. So it is the nearest integers of 53
significant bits that are compared: an order of these is an order of the integers, and the other way
round as long as different integers keep different ones. Two large integers that share one are
equal in number, although they are different values.
-/
namespace KeyedTables.Arithmetic

def comparisons : List Builtin := [.numEq, .numNe, .gt, .ge, .lt, .le]

/-- What a comparison says of integers: all are equal, the first is none of the others, or any two
neighbours are in order. -/
def Compares (function : Builtin) (xs : List Int) : Prop :=
  match function with
  | .numEq => ∀ x ∈ xs, ∀ y ∈ xs, x = y
  | .numNe => ∀ x ∈ xs.head?, ∀ y ∈ xs.tail, x ≠ y
  | .gt => xs.IsChain (· > ·)
  | .ge => xs.IsChain (· ≥ ·)
  | .lt => xs.IsChain (· < ·)
  | _ => xs.IsChain (· ≤ ·)

/-- Different integers have different nearest ones. -/
def ToldApart (ints : List Int64) : Prop :=
  ∀ i ∈ ints, ∀ j ∈ ints, nearest i.toInt = nearest j.toInt → i = j

section Integers
variable {function : Builtin} {ints : List Int64}

lemma numbers_integers (function : Builtin) (ints : List Int64) :
    numbers function (ints.map Value.integer) = .ok (ints.map Number.integer) := by
  induction ints with
  | nil => rfl
  | cons i ints ih =>
    have hnumber : (Value.integer i).number? = some (.integer i) := rfl
    rw [List.map_cons, numbers, hnumber]
    dsimp only
    rw [ih]
    rfl

lemma compare_map_integer (function : Builtin) (ints : List Int64) :
    compare function (ints.map Value.integer) =
      .ok (.boolean (holds function (ints.map Binary64.ofInt64))) := by
  rw [compare, numbers_integers, Except.map, List.map_map]
  rfl

lemma chained_iff {r : Binary64 → Binary64 → Bool} {xs : List Binary64} :
    chained r xs = true ↔ xs.IsChain fun x y => r x y = true := by
  induction xs with
  | nil => simp [chained]
  | cons x xs ih =>
    cases xs with
    | nil => simp [chained]
    | cons y xs =>
      rw [List.isChain_cons_cons, ← ih]
      simp [chained]

lemma chained_map_iff {r : Binary64 → Binary64 → Bool} {R : Int → Int → Prop}
    (h : ∀ i j, r (.ofInt64 i) (.ofInt64 j) = true ↔ R (nearest i.toInt) (nearest j.toInt)) :
    chained r (ints.map Binary64.ofInt64) = true ↔
      (ints.map fun i => nearest i.toInt).IsChain R := by
  rw [chained_iff, List.isChain_map, List.isChain_map]
  exact List.IsChain.iff h

/-- Numbers of which any two neighbours are equal are all equal. -/
theorem isChain_eq_iff {xs : List Int} : xs.IsChain (· = ·) ↔ ∀ x ∈ xs, ∀ y ∈ xs, x = y := by
  rw [List.isChain_iff_pairwise]
  constructor
  · intro h x hx y hy
    exact h.forall_of_forall (fun _ _ => rfl) hx hy
  · exact fun h => List.pairwise_of_forall_mem_list h

/-- The floating numbers compare as the nearest integers do. -/
theorem holds_iff (h : function ∈ comparisons) :
    holds function (ints.map Binary64.ofInt64) = true ↔
      Compares function (ints.map fun i => nearest i.toInt) := by
  simp only [comparisons, List.mem_cons, List.not_mem_nil, or_false] at h
  obtain rfl | rfl | rfl | rfl | rfl | rfl := h
  · exact (chained_map_iff Binary64.eqv_ofInt64).trans isChain_eq_iff
  · cases ints with
    | nil => simp [holds, Compares]
    | cons i ints => simp [holds, Compares, ← Binary64.eqv_ofInt64]
  · exact chained_map_iff (r := fun x y => y.lt x) (R := (· > ·)) fun i j =>
      Binary64.lt_ofInt64 j i
  · exact chained_map_iff (r := fun x y => y.le x) (R := (· ≥ ·)) fun i j =>
      Binary64.le_ofInt64 j i
  · exact chained_map_iff Binary64.lt_ofInt64
  · exact chained_map_iff Binary64.le_ofInt64

/-- Integers compare like others that have the same order. -/
theorem compares_congr {f g : Int64 → Int}
    (h : ∀ i ∈ ints, ∀ j ∈ ints, f i < f j ↔ g i < g j) :
    Compares function (ints.map f) ↔ Compares function (ints.map g) := by
  have hle : ∀ i ∈ ints, ∀ j ∈ ints, f i ≤ f j ↔ g i ≤ g j := fun i hi j hj => by
    have := h j hj i hi
    omega
  have heq : ∀ i ∈ ints, ∀ j ∈ ints, f i = f j ↔ g i = g j := fun i hi j hj => by
    have := h i hi j hj
    have := h j hj i hi
    omega
  unfold Compares
  split
  · simp only [List.mem_map, forall_exists_index, and_imp, forall_apply_eq_imp_iff₂]
    exact forall₄_congr heq
  · cases ints with
    | nil => simp
    | cons i ints =>
      simp only [List.map_cons, List.head?_cons, Option.mem_some_iff, forall_eq', List.tail_cons,
        List.forall_mem_map]
      exact forall₂_congr fun j hj =>
        not_congr (heq i List.mem_cons_self j (List.mem_cons_of_mem i hj))
  all_goals rw [List.isChain_map, List.isChain_map]
  · exact List.IsChain.iff_of_mem_imp fun i j hi hj => h j hj i hi
  · exact List.IsChain.iff_of_mem_imp fun i j hi hj => hle j hj i hi
  · exact List.IsChain.iff_of_mem_imp fun i j hi hj => h i hi j hj
  · exact List.IsChain.iff_of_mem_imp fun i j hi hj => hle i hi j hj

lemma ToldApart.of_nodup (h : (ints.map fun i => nearest i.toInt).Nodup) : ToldApart ints :=
  List.inj_on_of_nodup_map h

lemma ToldApart.lt_iff (h : ToldApart ints) {i j : Int64} (hi : i ∈ ints) (hj : j ∈ ints) :
    nearest i.toInt < nearest j.toInt ↔ i.toInt < j.toInt := by
  constructor
  · intro hlt
    exact Int.lt_of_not_ge fun hle => Int.not_le.2 hlt (nearest_mono hle)
  · intro hlt
    refine Int.lt_iff_le_and_ne.2 ⟨nearest_mono (Int.le_of_lt hlt), fun heq => ?_⟩
    rw [h i hi j hj heq] at hlt
    exact Int.lt_irrefl _ hlt

/-- Integers that are told apart compare as integers. -/
theorem ToldApart.compares_iff (h : ToldApart ints) :
    Compares function (ints.map fun i => nearest i.toInt) ↔
      Compares function (ints.map Int64.toInt) :=
  compares_congr fun _ hi _ hj => h.lt_iff hi hj

lemma boolean_inj {b b' : Bool} : Value.boolean b = .boolean b' ↔ b = b' := by
  constructor
  · intro h
    have htrue := congrArg Value.isTrue h
    rwa [Value.isTrue_boolean, Value.isTrue_boolean] at htrue
  · exact congrArg Value.boolean

lemma compare_eq_true_iff (h : function ∈ comparisons) :
    compare function (ints.map Value.integer) = .ok (.boolean true) ↔
      Compares function (ints.map fun i => nearest i.toInt) := by
  rw [← holds_iff h, compare_map_integer, Except.ok.injEq, boolean_inj]

end Integers

section Pairs
variable {i j : Int64}

lemma compare_eq_of_pair : compare .numEq [.integer i, .integer j] = .ok (.boolean true) ↔
    nearest i.toInt = nearest j.toInt := by
  have h : compare .numEq ([i, j].map Value.integer) = .ok (.boolean true) ↔ _ :=
    compare_eq_true_iff (by decide)
  simpa [Compares, eq_comm] using h

lemma compare_lt_of_pair : compare .lt [.integer i, .integer j] = .ok (.boolean true) ↔
    nearest i.toInt < nearest j.toInt := by
  have h : compare .lt ([i, j].map Value.integer) = .ok (.boolean true) ↔ _ :=
    compare_eq_true_iff (by decide)
  simpa [Compares] using h

lemma compare_gt_of_pair : compare .gt [.integer i, .integer j] = .ok (.boolean true) ↔
    nearest j.toInt < nearest i.toInt := by
  have h : compare .gt ([i, j].map Value.integer) = .ok (.boolean true) ↔ _ :=
    compare_eq_true_iff (by decide)
  simpa [Compares] using h

/-- One integer is less than, equal to or greater than another one, as their nearest ones are. -/
theorem existsUnique_compare : ∃! function, function ∈ [Builtin.lt, .numEq, .gt] ∧
    compare function [.integer i, .integer j] = .ok (.boolean true) := by
  have hcases : ∀ function, function ∈ [Builtin.lt, .numEq, .gt] ∧
      compare function [.integer i, .integer j] = .ok (.boolean true) →
        (function = .lt ∧ nearest i.toInt < nearest j.toInt) ∨
          (function = .numEq ∧ nearest i.toInt = nearest j.toInt) ∨
          (function = .gt ∧ nearest j.toInt < nearest i.toInt) := by
    rintro function ⟨hmem, hcompare⟩
    simp only [List.mem_cons, List.not_mem_nil, or_false] at hmem
    obtain rfl | rfl | rfl := hmem
    · exact .inl ⟨rfl, compare_lt_of_pair.1 hcompare⟩
    · exact .inr (.inl ⟨rfl, compare_eq_of_pair.1 hcompare⟩)
    · exact .inr (.inr ⟨rfl, compare_gt_of_pair.1 hcompare⟩)
  obtain h | h | h := Int.lt_trichotomy (nearest i.toInt) (nearest j.toInt)
  · refine ⟨.lt, ⟨by decide, compare_lt_of_pair.2 h⟩, fun function hf => ?_⟩
    obtain ⟨heq, _⟩ | ⟨_, heq⟩ | ⟨_, hgt⟩ := hcases function hf
    · exact heq
    · omega
    · omega
  · refine ⟨.numEq, ⟨by decide, compare_eq_of_pair.2 h⟩, fun function hf => ?_⟩
    obtain ⟨_, hlt⟩ | ⟨heq, _⟩ | ⟨_, hgt⟩ := hcases function hf
    · omega
    · exact heq
    · omega
  · refine ⟨.gt, ⟨by decide, compare_gt_of_pair.2 h⟩, fun function hf => ?_⟩
    obtain ⟨_, hlt⟩ | ⟨_, heq⟩ | ⟨heq, _⟩ := hcases function hf
    · omega
    · omega
    · exact heq

lemma toldApart_pair_iff :
    ToldApart [i, j] ↔ (nearest i.toInt = nearest j.toInt → i = j) := by
  constructor
  · intro h
    exact h i (by simp) j (by simp)
  · intro h x hx y hy heq
    simp only [List.mem_cons, List.not_mem_nil, or_false] at hx hy
    obtain rfl | rfl := hx <;> obtain rfl | rfl := hy
    · rfl
    · exact h heq
    · exact (h heq.symm).symm
    · rfl

lemma agree_of_pair : Call.agree .eq [.integer i, .integer j] = .ok (.boolean (j = i)) := by
  simp [Call.agree, Value.integer]

/-- Numbers are equal just if the values are, for two integers that are told apart. -/
theorem compare_eq_agree_iff : compare .numEq [.integer i, .integer j] =
    Call.agree .eq [.integer i, .integer j] ↔ ToldApart [i, j] := by
  have hholds : holds .numEq ([i, j].map Binary64.ofInt64) = true ↔
      nearest i.toInt = nearest j.toInt := by
    rw [← compare_eq_of_pair, ← boolean_inj, ← Except.ok.injEq, ← compare_map_integer]
    rfl
  have hcompare : compare .numEq [.integer i, .integer j] = _ := compare_map_integer .numEq [i, j]
  rw [hcompare, agree_of_pair, Except.ok.injEq, boolean_inj, Bool.eq_iff_iff, hholds,
    decide_eq_true_iff, toldApart_pair_iff]
  exact ⟨fun h heq => (h.1 heq).symm, fun h => ⟨fun heq => (h heq).symm, by rintro rfl; rfl⟩⟩

end Pairs

/-- A comparison of integers always has an answer, which is that for the nearest integers of 53
significant bits, and for the integers themselves if these are told apart, as those up to `2 ^ 53`
are. No integer of 53 significant bits is nearer, and the order is kept. Of two integers the first
is always less than, equal to or greater than the second, and never two of these; equality in
number is that of values just if the two are told apart. -/
theorem compare_integers {function : Builtin} (hfunction : function ∈ comparisons)
    (ints : List Int64) :
    (∃ answer, compare function (ints.map Value.integer) = .ok (.boolean answer) ∧
      (answer = true ↔ Compares function (ints.map fun i => nearest i.toInt)) ∧
      (ToldApart ints → (answer = true ↔ Compares function (ints.map Int64.toInt)))) ∧
    (∀ i, Significant (nearest i) ∧
      ∀ x, Significant x → (nearest i - i).natAbs ≤ (x - i).natAbs) ∧
    Monotone nearest ∧
    ((∀ i ∈ ints, i.toInt.natAbs ≤ 2 ^ 53) → ToldApart ints) ∧
    ∀ i j : Int64,
      (∃! relation, relation ∈ [Builtin.lt, .numEq, .gt] ∧
        compare relation [.integer i, .integer j] = .ok (.boolean true)) ∧
      (compare .numEq [.integer i, .integer j] = Call.agree .eq [.integer i, .integer j] ↔
        ToldApart [i, j]) := by
  refine ⟨⟨_, compare_map_integer function ints, holds_iff hfunction, fun hapart => ?_⟩,
    fun i => ⟨significant_nearest i, fun _ => natAbs_nearest_le i⟩, fun _ _ => nearest_mono,
    fun hsmall => ?_, fun i j => ⟨existsUnique_compare, compare_eq_agree_iff⟩⟩
  · exact (holds_iff hfunction).trans hapart.compares_iff
  · intro i hi j hj heq
    rw [nearest_of_natAbs_le (hsmall i hi), nearest_of_natAbs_le (hsmall j hj)] at heq
    exact Int64.toInt_inj.1 heq

/-- Two different integers that are equal in number: they share the nearest floating number. -/
theorem compare_eq_of_neighbours :
    (9007199254740993 : Int64).toInt ≠ (9007199254740992 : Int64).toInt ∧
      compare .numEq [.integer 9007199254740993, .integer 9007199254740992] =
        .ok (.boolean true) ∧
      Call.agree .eq [.integer 9007199254740993, .integer 9007199254740992] =
        .ok (.boolean false) :=
  ⟨by decide, compare_eq_of_pair.2 (by decide +kernel), agree_of_pair⟩

/-- Three integers of more than 53 bits that are told apart, and so are in order. -/
theorem compare_integers_of_large :
    ToldApart [9007199254740993, 9007199254740995, 4611686018427387905] ∧
      compare .lt [.integer 9007199254740993, .integer 9007199254740995,
        .integer 4611686018427387905] = .ok (.boolean true) := by
  have hapart : ToldApart [9007199254740993, 9007199254740995, 4611686018427387905] :=
    .of_nodup (by decide +kernel)
  obtain ⟨answer, hcompare, _, hexact⟩ := (@compare_integers .lt (by decide)
    [9007199254740993, 9007199254740995, 4611686018427387905]).1
  have hanswer : answer = true := (hexact hapart).2 (by simp [Compares])
  rw [hanswer] at hcompare
  exact ⟨hapart, hcompare⟩

end KeyedTables.Arithmetic
