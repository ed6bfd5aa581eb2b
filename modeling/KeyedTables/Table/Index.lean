import KeyedTables.Table.Key

/-!
# Hash indices

An index finds the ordinal of a key. It has a fixed number of buckets, each with a chain of entries
in order of insertion; an entry records the hash of its key and the key's ordinal, while the key
itself stays where the ordinal points. The number of buckets for a number of keys is the least prime
that keeps four fifths of the buckets or fewer in use.
-/
namespace KeyedTables

/-- Whether `n` has a divisor `d`, `d + 2`, `d + 4`, … whose square is at most `n`. -/
def hasDivisorFrom (n d : Nat) : Bool :=
  if 0 < d ∧ d * d ≤ n then n % d == 0 || hasDivisorFrom n (d + 2) else false
termination_by n + 1 - d
decreasing_by
  have : d ≤ d * d := Nat.le_mul_of_pos_left d (by omega)
  omega

/-- Primality by trial division. -/
def isPrime (n : Nat) : Bool :=
  if n < 2 then false else if n % 2 = 0 then n = 2 else !hasDivisorFrom n 3

/-- The first prime among `n`, `n + 1`, …, the search going at most `fuel` steps. -/
def primeFrom : Nat → Nat → Nat
  | 0, n => n
  | fuel + 1, n => if isPrime n then n else primeFrom fuel (n + 1)

/-- The least prime that is `n` or more; there is one below `2 * n`. -/
def nextPrime (n : Nat) : Nat := primeFrom (max n 2) (max n 2)

/-- How many buckets an index of `keys` keys has. -/
def bucketCount (keys : Nat) : Nat := if keys ≤ 3 then keys else nextPrime ((keys * 5 + 3) / 4)

structure Index.Entry where
  hash : UInt64
  ordinal : Nat
  deriving DecidableEq, Repr

structure Index where
  buckets : Array (List Index.Entry)
  size : Nat
  deriving DecidableEq, Repr

namespace Index

def withBuckets (n : Nat) : Index := ⟨Array.replicate n [], 0⟩

def empty : Index := withBuckets 0

def bucketCount (index : Index) : Nat := index.buckets.size

def chainLengths (index : Index) : List Nat := index.buckets.toList.map List.length

/-- The bucket of a hash among `n` buckets. -/
def slot (hash : UInt64) (n : Nat) : Nat := hash.toNat % n

/-- The chain where entries with a hash stand; an index without buckets has no entries. -/
def chain (index : Index) (hash : UInt64) : List Entry :=
  index.buckets.getD (slot hash index.bucketCount) []

/-- Adds an entry behind all others of its chain. An index without buckets gets one first. -/
def insert (index : Index) (hash : UInt64) (ordinal : Nat) : Index :=
  let buckets := if index.buckets.isEmpty then #[[]] else index.buckets
  ⟨buckets.modify (slot hash buckets.size) (· ++ [⟨hash, ordinal⟩]), index.size + 1⟩

section Lookup
variable {κ : Type} [Key κ]

/-- Whether an entry stands for the probe: equal hashes, and the key at its ordinal matches. -/
def Entry.finds (keyAt : Nat → Option κ) (probe : Value) (e : Entry) : Bool :=
  e.hash == probe.hash && (keyAt e.ordinal).any (Key.isMatch · probe)

/-- The ordinal of the first key that matches the probe. -/
def find? (index : Index) (keyAt : Nat → Option κ) (probe : Value) : Option Nat :=
  ((index.chain probe.hash).find? (Entry.finds keyAt probe)).map Entry.ordinal

/-- Adds a key unless a matching one is there, whose ordinal is then the error. -/
def insertNew (index : Index) (keyAt : Nat → Option κ) (probe : Value) (ordinal : Nat) :
    Except Nat Index :=
  match index.find? keyAt probe with
  | some existing => .error existing
  | none => .ok (index.insert probe.hash ordinal)

end Lookup

@[simp] theorem bucketCount_withBuckets (n : Nat) : (withBuckets n).bucketCount = n := by
  simp [withBuckets, bucketCount]

theorem size_insert (index : Index) (hash : UInt64) (ordinal : Nat) :
    (index.insert hash ordinal).size = index.size + 1 := rfl

theorem bucketCount_insert (index : Index) (hash : UInt64) (ordinal : Nat) :
    (index.insert hash ordinal).bucketCount = max index.bucketCount 1 := by
  simp only [insert, bucketCount, Array.size_modify]
  by_cases h : index.buckets.isEmpty
  · have hs : index.buckets.size = 0 := Array.isEmpty_iff_size_eq_zero.1 h
    rw [if_pos h, hs]
    rfl
  · have hs : index.buckets.size ≠ 0 := fun hz => h (Array.isEmpty_iff_size_eq_zero.2 hz)
    rw [if_neg h]
    omega

end Index

end KeyedTables
