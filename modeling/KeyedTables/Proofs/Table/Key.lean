import KeyedTables.Proofs.Text.Utf8
import KeyedTables.Table.Key
import Mathlib.Algebra.GroupWithZero.Nat
import Mathlib.Data.List.Forall2
import Mathlib.Data.List.Perm.Basic

/-!
# Matching and hashing of keys

Keys match exactly when they are the same: of one kind, and with the same atoms in the same places.
The hash of a value is the sum of the hashes of its atoms and does not see their places. So keys
that match share a hash, and an index that compares hashes first overlooks none of them; but an atom
and the multifield of it alone share a hash as well, and so do multifields with the same atoms in
different places. What keeps hashes apart is the hash of an atom: mixing in bytes loses nothing, so
that atoms of two kinds with the same bytes have two hashes.
-/
namespace KeyedTables

/-- Keys that match a probe exactly if they are what the probe was made from. -/
class LawfulKey (κ : Type) [Key κ] where
  probe : κ → Value
  isMatch_iff (key : κ) (v : Value) : Key.isMatch key v = true ↔ probe key = v
  probe_injective {a b : κ} : probe a = probe b → a = b

lemma Atom.isMatch_iff (a : Atom) (v : Value) : a.isMatch v = true ↔ Value.atom a = v := by
  cases v with
  | atom b =>
    rw [Atom.isMatch, beq_iff_eq, Value.atom.injEq]
    exact eq_comm
  | multifield xs => simp [Atom.isMatch]

lemma all_zip_iff (ks ps : List Atom) (h : ks.length = ps.length) :
    ((ks.zip ps).all fun (k, p) => k == p) = true ↔ ks = ps := by
  induction ks generalizing ps with
  | nil =>
    cases ps with
    | nil => simp
    | cons p ps => simp at h
  | cons k ks ih =>
    cases ps with
    | nil => simp at h
    | cons p ps =>
      rw [List.zip_cons_cons, List.all_cons, Bool.and_eq_true, ih ps (by simpa using h)]
      simp

theorem Value.isMatch_iff (v w : Value) : v.isMatch w = true ↔ v = w := by
  cases v with
  | atom a => cases w <;> simp [Value.isMatch]
  | multifield ks =>
    cases w with
    | atom b => simp [Value.isMatch]
    | multifield ps =>
      rw [Value.isMatch, Bool.and_eq_true, beq_iff_eq, Value.multifield.injEq]
      constructor
      · rintro ⟨hlen, hall⟩
        exact (all_zip_iff ks ps hlen).1 hall
      · rintro rfl
        exact ⟨rfl, (all_zip_iff ks ks rfl).2 rfl⟩

instance : LawfulKey Atom where
  probe := .atom
  isMatch_iff := Atom.isMatch_iff
  probe_injective h := by cases h; rfl

instance : LawfulKey Value where
  probe := id
  isMatch_iff := Value.isMatch_iff
  probe_injective h := h

/-- Atoms of one type with the same content, floating numbers bit for bit. -/
def Atom.Same : Atom → Atom → Prop
  | symbol s, symbol s' => s = s'
  | string s, string s' => s = s'
  | integer i, integer j => i = j
  | float x, float y => x.bits = y.bits
  | _, _ => False

/-- Two atoms that are the same, or two multifields that are the same atom by atom. -/
def Value.Same : Value → Value → Prop
  | atom a, atom b => a.Same b
  | multifield xs, multifield ys => List.Forall₂ Atom.Same xs ys
  | _, _ => False

lemma Binary64.bits_inj {x y : Binary64} : x.bits = y.bits ↔ x = y := by
  cases x
  cases y
  simp

theorem Atom.same_eq : Atom.Same = Eq := by
  funext a b
  cases a <;> cases b <;> simp [Atom.Same, Binary64.bits_inj]

theorem Value.same_eq : Value.Same = Eq := by
  funext v w
  cases v <;> cases w <;> simp [Value.Same, Atom.same_eq]

lemma Value.isMatch_iff_same (key probe : Value) : key.isMatch probe = true ↔ key.Same probe := by
  rw [Value.same_eq]
  exact Value.isMatch_iff key probe

/-- The hash of a multifield does not depend on the order of its atoms. -/
theorem Value.hash_multifield_of_perm {xs ys : List Atom} (h : xs.Perm ys) :
    (multifield xs).hash = (multifield ys).hash := by
  have hcomm : RightCommutative fun (h : UInt64) (a : Atom) => h + a.hash :=
    ⟨fun h a b => by rw [UInt64.add_assoc, UInt64.add_comm a.hash, ← UInt64.add_assoc]⟩
  exact h.foldl_eq 0

theorem Value.hash_multifield_singleton (a : Atom) : (multifield [a]).hash = (atom a).hash :=
  UInt64.zero_add _

lemma Value.toNat_foldl_hash (xs : List Atom) (h : UInt64) :
    (xs.foldl (fun h a => h + a.hash) h).toNat =
      (h.toNat + (xs.map fun a => a.hash.toNat).sum) % 2 ^ 64 := by
  induction xs generalizing h with
  | nil => exact (Nat.mod_eq_of_lt h.toNat_lt).symm
  | cons a xs ih =>
    rw [List.foldl_cons, ih, UInt64.toNat_add, List.map_cons, List.sum_cons, Nat.mod_add_mod,
      Nat.add_assoc]

/-- A hash is the sum of the hashes of the atoms, modulo the size of a word. -/
theorem Value.toNat_hash (v : Value) :
    v.hash.toNat = (v.atoms.map fun a => a.hash.toNat).sum % 2 ^ 64 := by
  cases v with
  | atom a =>
    rw [atoms, List.map_singleton, List.sum_singleton]
    exact (Nat.mod_eq_of_lt a.hash.toNat_lt).symm
  | multifield xs =>
    have hfold := toNat_foldl_hash xs 0
    rwa [UInt64.toNat_zero, Nat.zero_add] at hfold

lemma Value.toNat_hash_concat (vs : List Value) :
    (concat vs).hash.toNat = (vs.map fun v => v.hash.toNat).sum % 2 ^ 64 := by
  rw [toNat_hash, atoms_concat]
  induction vs with
  | nil => rfl
  | cons v vs ih =>
    rw [List.flatMap_cons, List.map_append, List.sum_append, Nat.add_mod, ih, ← toNat_hash,
      List.map_cons, List.sum_cons, Nat.add_mod_mod]

lemma Value.toNat_hash_append (xs ys : List Atom) :
    (multifield (xs ++ ys)).hash.toNat =
      ((multifield xs).hash.toNat + (multifield ys).hash.toNat) % 2 ^ 64 := by
  have h := toNat_hash_concat [multifield xs, multifield ys]
  simpa [concat, atoms] using h

namespace Hash

/-- The factor by which a hash is multiplied is odd, so it has an inverse. -/
theorem factor_mul_inverse : (0x100000001B3 : UInt64) * 0xCE965057AFF6957B = 1 := by decide

lemma mul_factor_injective : Function.Injective fun h : UInt64 => h * 0x100000001B3 := by
  intro a b h
  have hinverse := congrArg (· * 0xCE965057AFF6957B) h
  dsimp only at hinverse
  rwa [UInt64.mul_assoc, UInt64.mul_assoc, factor_mul_inverse, UInt64.mul_one, UInt64.mul_one]
    at hinverse

/-- Hashes that differ before bytes are mixed in differ afterwards. -/
theorem absorb_injective (bytes : List UInt8) : Function.Injective fun h => absorb h bytes := by
  induction bytes with
  | nil => exact fun _ _ h => h
  | cons b bytes ih =>
    intro h h' heq
    have hxor : h ^^^ b.toUInt64 = h' ^^^ b.toUInt64 := mul_factor_injective (ih heq)
    exact (UInt64.xor_left_inj _).1 hxor

/-- Bytes that are hashed under two kinds have two hashes. -/
theorem ofContent_injective (bytes : List UInt8) :
    Function.Injective fun kind => ofContent kind bytes := by
  intro kind kind' h
  have hxor := mul_factor_injective (absorb_injective bytes h)
  have hkind : kind.toUInt64 = kind'.toUInt64 := (UInt64.xor_right_inj _).1 hxor
  exact UInt8.toUInt64_inj.1 hkind

lemma textBytes_injective : Function.Injective textBytes := by
  intro s t h
  have hdecode := Utf8.decode_encode s.toList
  unfold textBytes at h
  rw [h, Utf8.decode_encode] at hdecode
  exact String.toList_inj.1 (Except.ok.inj hdecode).symm

lemma wordBytes_injective : Function.Injective wordBytes := by
  intro w w' h
  have hnat := congrArg Bytes.toNat h
  unfold wordBytes at hnat
  rw [Bytes.toNat_ofNat, Bytes.toNat_ofNat, Nat.mod_eq_of_lt w.toNat_lt,
    Nat.mod_eq_of_lt w'.toNat_lt] at hnat
  exact UInt64.toNat_inj.1 hnat

lemma toUInt64_injective : Function.Injective Int64.toUInt64 := by
  intro i j h
  rw [← i.toInt64_toUInt64, h, j.toInt64_toUInt64]

end Hash

namespace Atom

def kind : Atom → UInt8
  | symbol _ => 1
  | string _ => 2
  | integer _ => 3
  | float _ => 4

open Hash in
/-- The bytes that the hash of an atom runs over behind its kind. -/
def content : Atom → List UInt8
  | symbol s => textBytes s
  | string s => textBytes s
  | integer i => wordBytes i.toUInt64
  | float x => wordBytes x.bits

lemma hash_eq_ofContent (a : Atom) : a.hash = Hash.ofContent a.kind a.content := by
  cases a <;> rfl

lemma eq_of_kind_eq {a b : Atom} (hkind : a.kind = b.kind) (hcontent : a.content = b.content) :
    a = b := by
  cases a with
  | symbol s =>
    cases b with
    | symbol t => exact congrArg symbol (Hash.textBytes_injective hcontent)
    | _ => simp [kind] at hkind
  | string s =>
    cases b with
    | string t => exact congrArg string (Hash.textBytes_injective hcontent)
    | _ => simp [kind] at hkind
  | integer i =>
    cases b with
    | integer j =>
      have hword := Hash.wordBytes_injective hcontent
      exact congrArg integer (Hash.toUInt64_injective hword)
    | _ => simp [kind] at hkind
  | float x =>
    cases b with
    | float y => exact congrArg float (Binary64.bits_inj.1 (Hash.wordBytes_injective hcontent))
    | _ => simp [kind] at hkind

/-- Among atoms with the same bytes, the hash tells the kind. -/
theorem hash_eq_iff_of_content_eq {a b : Atom} (hcontent : a.content = b.content) :
    a.hash = b.hash ↔ a = b := by
  constructor
  · intro h
    rw [hash_eq_ofContent, hash_eq_ofContent, hcontent] at h
    exact eq_of_kind_eq (Hash.ofContent_injective b.content h) hcontent
  · exact congrArg hash

end Atom

/-- An atom is matched as a key in the way the value that consists of it is. -/
theorem Atom.isMatch_eq (a : Atom) (probe : Value) :
    a.isMatch probe = (Value.atom a).isMatch probe := by
  rw [Bool.eq_iff_iff, Atom.isMatch_iff, Value.isMatch_iff]

/-- A probe has the hash of every key it matches. -/
theorem LawfulKey.hash_eq_of_isMatch {κ : Type} [Key κ] [LawfulKey κ] {key : κ} {v : Value}
    (h : Key.isMatch key v = true) : (probe key).hash = v.hash :=
  congrArg Value.hash ((isMatch_iff key v).1 h)

/-- A key matches a probe exactly when the two are the same, as an atom of its own and as a value
alike, and then they share a hash. Permutations of a multifield share a hash too, but match only
when they are the same; a concatenation has the sum of the hashes, so that a multifield of one atom
has the hash of the atom, which it does not match. Atoms with the same bytes share a hash only when
they are of one kind. -/
theorem match_and_hash_cohere :
    (∀ key probe : Value, (key.isMatch probe = true ↔ key.Same probe) ∧
      (key.Same probe ↔ key = probe) ∧ (key.isMatch probe = true → key.hash = probe.hash)) ∧
    (∀ (a : Atom) (probe : Value), a.isMatch probe = (Value.atom a).isMatch probe ∧
      a.hash = (Value.atom a).hash ∧ (a.isMatch probe = true → a.hash = probe.hash)) ∧
    (∀ xs ys : List Atom, xs.Perm ys →
      (Value.multifield xs).hash = (Value.multifield ys).hash ∧
      ((Value.multifield xs).isMatch (.multifield ys) = true ↔ xs = ys)) ∧
    (∀ xs ys : List Atom, (Value.multifield (xs ++ ys)).hash.toNat =
      ((Value.multifield xs).hash.toNat + (Value.multifield ys).hash.toNat) % 2 ^ 64) ∧
    (∀ vs : List Value,
      (Value.concat vs).hash.toNat = (vs.map fun v => v.hash.toNat).sum % 2 ^ 64) ∧
    (∀ a : Atom, (Value.multifield [a]).hash = (Value.atom a).hash ∧
      (Value.multifield [a]).isMatch (.atom a) = false ∧
      (Value.atom a).isMatch (.multifield [a]) = false) ∧
    ∀ a b : Atom, a.content = b.content → (a.hash = b.hash ↔ a = b) := by
  refine ⟨fun key probe => ⟨key.isMatch_iff_same probe, by rw [Value.same_eq], fun h => ?_⟩,
    fun a probe => ⟨a.isMatch_eq probe, rfl, fun h => ?_⟩,
    fun xs ys hperm => ⟨Value.hash_multifield_of_perm hperm, ?_⟩,
    Value.toNat_hash_append, Value.toNat_hash_concat,
    fun a => ⟨Value.hash_multifield_singleton a, rfl, rfl⟩,
    fun a b => Atom.hash_eq_iff_of_content_eq⟩
  · have hmatch : Key.isMatch key probe = true := h
    exact LawfulKey.hash_eq_of_isMatch hmatch
  · have hmatch : Key.isMatch a probe = true := h
    exact LawfulKey.hash_eq_of_isMatch hmatch
  · rw [Value.isMatch_iff, Value.multifield.injEq]

/-- Two atoms the other way round, one of them not a number: the multifields share a hash and do not
match, while each matches itself, as the atom does. A symbol and a string of one text have two
hashes. -/
theorem match_and_hash_cohere_of_swapped_atoms :
    let nan : Atom := .float ⟨0x7FF8000000000000⟩
    let xs : List Atom := [.integer 1, nan]
    let ys : List Atom := [nan, .integer 1]
    (xs.Perm ys ∧ (Value.multifield xs).hash = (Value.multifield ys).hash ∧
      (Value.multifield xs).isMatch (.multifield ys) = false) ∧
    ((Value.multifield xs).isMatch (.multifield xs) = true ∧
      nan.isMatch (.atom nan) = true ∧ nan.hash = (Value.atom nan).hash) ∧
    (Atom.symbol "a").content = (Atom.string "a").content ∧
      (Atom.symbol "a").hash ≠ (Atom.string "a").hash := by
  intro nan xs ys
  obtain ⟨hvalue, hatom, hperm, _, _, _, hcontent⟩ := match_and_hash_cohere
  have hswap : xs.Perm ys := .swap nan (.integer 1) []
  obtain ⟨hhash, hmatch⟩ := hperm xs ys hswap
  obtain ⟨hxs, hsame, _⟩ := hvalue (.multifield xs) (.multifield xs)
  obtain ⟨hagree, _, hshare⟩ := hatom nan (.atom nan)
  have hnan : nan.isMatch (.atom nan) = true := hagree.trans (by decide)
  refine ⟨⟨hswap, hhash, ?_⟩, ⟨hxs.2 (hsame.2 rfl), hnan, hshare hnan⟩, rfl, ?_⟩
  · rw [Bool.eq_false_iff, ne_eq, hmatch]
    decide
  · rw [ne_eq, hcontent (.symbol "a") (.string "a") rfl]
    decide

end KeyedTables
