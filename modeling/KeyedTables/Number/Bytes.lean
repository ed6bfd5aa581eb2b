/-!
# Bytes

Natural numbers as a fixed number of bytes, the least significant first, and bytes taken off the
front of others.
-/
namespace KeyedTables.Bytes

/-- The lowest `width` bytes of a number. -/
def ofNat : Nat → Nat → List UInt8
  | 0, _ => []
  | width + 1, n => UInt8.ofNat n :: ofNat width (n / 256)

/-- The number some bytes denote. -/
def toNat : List UInt8 → Nat
  | [] => 0
  | b :: bs => b.toNat + 256 * toNat bs

@[simp] theorem length_ofNat (width n : Nat) : (ofNat width n).length = width := by
  induction width generalizing n with
  | zero => rfl
  | succ width ih => simp [ofNat, ih]

theorem toNat_ofNat (width n : Nat) : toNat (ofNat width n) = n % Nat.pow 256 width := by
  induction width generalizing n with
  | zero => simp [ofNat, toNat, Nat.mod_one]
  | succ width ih =>
    have hp : Nat.pow 256 (width + 1) = 256 * Nat.pow 256 width := Nat.mul_comm _ _
    simp only [ofNat, toNat, ih, UInt8.toNat_ofNat', hp]
    exact Nat.mod_mul.symm

theorem toNat_lt (bs : List UInt8) : toNat bs < Nat.pow 256 bs.length := by
  induction bs with
  | nil => simp [toNat]
  | cons b bs ih =>
    have hb := b.toNat_lt
    have hp : Nat.pow 256 (bs.length + 1) = 256 * Nat.pow 256 bs.length := Nat.mul_comm _ _
    simp only [toNat, List.length_cons, hp]
    omega

theorem ofNat_toNat (bs : List UInt8) : ofNat bs.length (toNat bs) = bs := by
  induction bs with
  | nil => rfl
  | cons b bs ih =>
    have hb := b.toNat_lt
    have hd : (b.toNat + 256 * toNat bs) / 256 = toNat bs := by omega
    simp only [List.length_cons, ofNat, toNat, hd, ih, List.cons.injEq, and_true]
    apply UInt8.toNat_inj.1
    simp only [UInt8.toNat_ofNat']
    omega

example : ofNat 4 0x01020304 = [4, 3, 2, 1] := by decide

theorem eq_of_toNat_eq {bs bs' : List UInt8} (hlength : bs'.length = bs.length)
    (h : toNat bs' = toNat bs) : bs' = bs := by
  rw [← ofNat_toNat bs', ← ofNat_toNat bs, hlength, h]

/-- Whether there are `n` bytes or more; bytes beyond those are not looked at. -/
def atLeast : Nat → List UInt8 → Bool
  | 0, _ => true
  | _ + 1, [] => false
  | n + 1, _ :: bs => atLeast n bs

/-- The first `n` bytes and those behind them, if there are so many. -/
def split? (n : Nat) (bs : List UInt8) : Option (List UInt8 × List UInt8) :=
  if atLeast n bs then some (bs.take n, bs.drop n) else none

theorem atLeast_iff {n : Nat} {bs : List UInt8} : atLeast n bs = true ↔ n ≤ bs.length := by
  fun_induction atLeast n bs with
  | case1 => simp
  | case2 => simp
  | case3 n b bs ih => simp [ih]

theorem split?_eq_some_iff {n : Nat} {bs xs ys : List UInt8} :
    split? n bs = some (xs, ys) ↔ bs = xs ++ ys ∧ xs.length = n := by
  simp only [split?, atLeast_iff, Option.ite_none_right_eq_some, Option.some.injEq, Prod.mk.injEq]
  constructor
  · rintro ⟨hn, rfl, rfl⟩
    exact ⟨(List.take_append_drop n bs).symm, by simp [hn]⟩
  · rintro ⟨rfl, rfl⟩
    simp

theorem split?_append (xs ys : List UInt8) : split? xs.length (xs ++ ys) = some (xs, ys) :=
  split?_eq_some_iff.2 ⟨rfl, rfl⟩

theorem split?_eq_none_iff {n : Nat} {bs : List UInt8} : split? n bs = none ↔ bs.length < n := by
  simp [split?, atLeast_iff]

example : split? 2 [1, 2, 3] = some ([1, 2], [3]) ∧ split? 2 [1] = none := by decide

theorem length_split? {n : Nat} {bs : List UInt8} {r : List UInt8 × List UInt8}
    (h : split? n bs = some r) : r.2.length + n = bs.length := by
  obtain ⟨rfl, rfl⟩ := split?_eq_some_iff.1 h
  simp [Nat.add_comm]

end KeyedTables.Bytes
