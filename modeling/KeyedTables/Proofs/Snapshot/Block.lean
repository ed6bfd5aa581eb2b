import KeyedTables.Snapshot
import Mathlib.Tactic.Lemma

/-!
# Blocks of literals

A block that takes all bytes as literals is expanded to these bytes, however many there are. So the
compressor that makes such blocks loses nothing.
-/
namespace KeyedTables

namespace Block

/-- Literals up to the end of the input are the last. -/
theorem expandFrom_of_literals {capacity : Nat} {token : UInt8} {input literals : List UInt8}
    {out : Array UInt8} (hinner : isInner capacity token input out = false)
    (hliterals : literals? token input = some (literals, []))
    (hsize : (out ++ literals).size ≤ capacity) :
    expandFrom capacity (token :: input) out = some (out ++ literals) := by
  have hlast : isLast capacity [] (out ++ literals) = true := rfl
  rw [expandFrom]
  split
  · rename_i hnone
    rw [hliterals] at hnone
    cases hnone
  · rename_i hsome
    rw [hliterals] at hsome
    cases hsome
    dsimp only
    rw [hinner, hlast, if_pos (show (!false && true) = true from rfl)]
    exact if_pos ⟨rfl, hsize⟩

lemma lengthTail_replicate (n count : Nat) (bytes : List UInt8) :
    lengthTail n (List.replicate count 255 ++ bytes) = lengthTail (n + 255 * count) bytes := by
  induction count generalizing n with
  | zero => rfl
  | succ count ih =>
    rw [List.replicate_succ, List.cons_append, lengthTail, if_pos rfl, ih]
    congr 1
    omega

/-- A length beyond fifteen is read from the bytes that continue it. -/
theorem length?_lengthBytes (n : Nat) (bytes : List UInt8) :
    length? 15 (lengthBytes n ++ bytes) = some (15 + n, bytes) := by
  have hlast : (UInt8.ofNat (n % 255)).toNat = n % 255 :=
    UInt8.toNat_ofNat_of_lt' (by change n % 255 < 256; omega)
  have hne : UInt8.ofNat (n % 255) ≠ 255 := by
    intro heq
    have hnat : n % 255 = 255 := hlast.symm.trans (congrArg UInt8.toNat heq)
    omega
  rw [length?, if_pos rfl, lengthBytes, List.append_assoc, lengthTail_replicate,
    List.singleton_append, lengthTail, if_neg hne, hlast]
  congr 2
  omega

/-- The first byte of a block of literals and the bytes behind it. -/
theorem ofLiterals_eq (bytes : List UInt8) :
    ∃ token input, ofLiterals bytes = token :: input ∧
      literals? token input = some (bytes, []) ∧
        isInner bytes.length token input #[] = false := by
  have hsplit : Bytes.split? bytes.length bytes = some (bytes, []) := by
    rw [Bytes.split?_eq_some_iff]
    exact ⟨(List.append_nil bytes).symm, rfl⟩
  unfold ofLiterals
  by_cases hn : bytes.length < 15
  · have htoken : (UInt8.ofNat (bytes.length * 16)).toNat = bytes.length * 16 :=
      UInt8.toNat_ofNat_of_lt' (by change bytes.length * 16 < 256; omega)
    refine ⟨UInt8.ofNat (bytes.length * 16), bytes, if_pos hn, ?_, ?_⟩
    · have hlength : length? (bytes.length * 16 / 16) bytes = some (bytes.length, bytes) := by
        rw [Nat.mul_div_cancel _ (by decide), length?, if_neg (by omega)]
      rw [literals?, htoken, hlength]
      exact hsplit
    · have hfew : Bytes.atLeast 17 bytes = false := by
        rw [Bool.eq_false_iff, ne_eq, Bytes.atLeast_iff]
        omega
      rw [isInner, hfew, Bool.and_false, Bool.false_and]
  · refine ⟨0xF0, lengthBytes (bytes.length - 15) ++ bytes, if_neg hn, ?_, ?_⟩
    · have hlength : length? ((0xF0 : UInt8).toNat / 16) (lengthBytes (bytes.length - 15) ++ bytes) =
          some (bytes.length, bytes) := by
        have hadd : 15 + (bytes.length - 15) = bytes.length := by omega
        have h := length?_lengthBytes (bytes.length - 15) bytes
        rw [hadd] at h
        exact h
      rw [literals?, hlength]
      exact hsplit
    · rfl

/-- A block of literals is expanded to these. -/
theorem expand?_ofLiterals (bytes : List UInt8) :
    expand? bytes.length (ofLiterals bytes) = some bytes := by
  obtain ⟨token, input, hblock, hliterals, hinner⟩ := ofLiterals_eq bytes
  unfold expand?
  split
  · rename_i hzero
    rw [List.length_eq_zero_iff] at hzero
    subst hzero
    rfl
  · rw [hblock, expandFrom_of_literals hinner hliterals (by simp)]
    simp

lemma length_ofLiterals_le (bytes : List UInt8) :
    (ofLiterals bytes).length ≤ bytes.length + bytes.length / 255 + 2 := by
  unfold ofLiterals lengthBytes
  by_cases hn : bytes.length < 15
  · rw [if_pos hn, List.length_cons]
    omega
  · rw [if_neg hn]
    simp only [List.length_cons, List.length_append, List.length_replicate, List.length_nil]
    omega

end Block

namespace Snapshot
variable {raw : List UInt8}

/-- The block that is made of these bytes can be stored and is expanded to them. -/
def Expander.Restores (expand : Expander) (compress : Compressor) (raw : List UInt8) : Prop :=
  ∃ block, compress raw = some block ∧ block.length < 0x100000000 ∧
    expand raw.length block = .ok raw

/-- Taking all bytes as literals loses nothing. -/
theorem expandBlock_restores (h : raw.length ≤ maxCapacity) :
    Expander.Restores expandBlock literally raw := by
  have hmax : raw.length ≤ 0x7E000000 := h
  have hblock := Block.length_ofLiterals_le raw
  refine ⟨Block.ofLiterals raw, if_pos h, by omega, ?_⟩
  rw [expandBlock, if_neg (Nat.not_lt.2 h), Block.expand?_ofLiterals]

end Snapshot

end KeyedTables
