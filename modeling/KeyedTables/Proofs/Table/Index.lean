import KeyedTables.Proofs.Table.Key
import KeyedTables.Table.Basic
import Mathlib.Data.List.Nodup

/-!
# Looking up in an index

An index holds exactly the entries that were inserted, each in the chain of its hash. So looking a
key up finds an ordinal at which a matching key stands, whenever there is one among those inserted,
and inserting keys one after another succeeds exactly when no two of them are equal, whatever the
number of buckets.
-/
namespace KeyedTables

namespace Index

/-- An index holds these entries and no others, each in the chain of its hash. -/
def Holds (index : Index) (entries : List Entry) : Prop :=
  ∀ e : Entry, e ∈ index.chain e.hash ↔ e ∈ entries

@[simp] theorem chain_withBuckets (n : Nat) (hash : UInt64) : (withBuckets n).chain hash = [] := by
  unfold chain withBuckets
  rw [Array.getD_eq_getD_getElem?, Array.getElem?_replicate]
  split <;> rfl

lemma holds_withBuckets (n : Nat) : (withBuckets n).Holds [] := by
  intro e
  rw [chain_withBuckets]

lemma getD_modify_of_lt {buckets : Array (List Entry)} {i : Nat} (hi : i < buckets.size) (j : Nat)
    (f : List Entry → List Entry) :
    (buckets.modify i f).getD j [] =
      if i = j then f (buckets.getD j []) else buckets.getD j [] := by
  rw [Array.getD_eq_getD_getElem?, Array.getD_eq_getD_getElem?, Array.getElem?_modify]
  by_cases h : i = j
  · subst h
    simp [hi]
  · simp [h]

/-- A bucket after an insertion. -/
theorem bucket_insert (index : Index) (hash : UInt64) (ordinal i : Nat) :
    (index.insert hash ordinal).buckets.getD i [] =
      if slot hash (max index.bucketCount 1) = i then
        index.buckets.getD i [] ++ [⟨hash, ordinal⟩]
      else index.buckets.getD i [] := by
  simp only [insert]
  by_cases h : index.buckets.isEmpty
  · have hs : index.buckets.size = 0 := Array.isEmpty_iff_size_eq_zero.1 h
    have hb : index.bucketCount = 0 := hs
    rw [if_pos h, hb, getD_modify_of_lt (by simp [slot, Nat.mod_one])]
    cases i with
    | zero => simp [slot, Nat.mod_one, hs]
    | succ i => simp [slot, Nat.mod_one, hs]
  · have hs : index.buckets.size ≠ 0 := fun hz => h (Array.isEmpty_iff_size_eq_zero.2 hz)
    have hb : max index.bucketCount 1 = index.buckets.size := by
      unfold bucketCount
      omega
    have hslot : slot hash index.buckets.size < index.buckets.size :=
      Nat.mod_lt _ (Nat.pos_of_ne_zero hs)
    rw [if_neg h, hb, getD_modify_of_lt hslot]

/-- Without buckets a chain is empty, wherever it is looked for. -/
theorem chain_eq_bucket (index : Index) (hash : UInt64) :
    index.chain hash = index.buckets.getD (slot hash (max index.bucketCount 1)) [] := by
  rw [chain]
  rcases Nat.eq_zero_or_pos index.bucketCount with h | h
  · have hs : index.buckets.size = 0 := h
    simp [hs]
  · rw [Nat.max_eq_left h]

/-- A chain after an insertion. -/
theorem chain_insert (index : Index) (hash other : UInt64) (ordinal : Nat) :
    (index.insert hash ordinal).chain other =
      if slot hash (max index.bucketCount 1) = slot other (max index.bucketCount 1) then
        index.chain other ++ [⟨hash, ordinal⟩]
      else index.chain other := by
  rw [chain_eq_bucket, chain_eq_bucket, bucketCount_insert, bucket_insert, Nat.max_assoc,
    Nat.max_self]

lemma Holds.insert {index : Index} {entries : List Entry} (h : index.Holds entries)
    (hash : UInt64) (ordinal : Nat) :
    (index.insert hash ordinal).Holds (entries ++ [⟨hash, ordinal⟩]) := by
  intro e
  rw [chain_insert, List.mem_append, ← h e, List.mem_singleton]
  split
  · rw [List.mem_append, List.mem_singleton]
  · rename_i hslot
    constructor
    · exact Or.inl
    · rintro (he | rfl)
      · exact he
      · exact absurd rfl hslot

section Lookup
variable {κ : Type} [Key κ] {index : Index} {entries : List Entry} {keyAt : Nat → Option κ}
  {v : Value}

/-- An entry stands for a probe if it has the probe's hash and points to a key that matches. -/
theorem Entry.finds_iff {e : Entry} : e.finds keyAt v = true ↔
    e.hash = v.hash ∧ ∃ key, keyAt e.ordinal = some key ∧ Key.isMatch key v = true := by
  rw [Entry.finds, Bool.and_eq_true, beq_iff_eq, Option.any_eq_true]

lemma exists_entry_of_find? {ordinal : Nat} (hf : index.find? keyAt v = some ordinal) :
    (⟨v.hash, ordinal⟩ : Entry) ∈ index.chain v.hash ∧ ∃ key, keyAt ordinal = some key ∧
      Key.isMatch key v = true := by
  obtain ⟨e, he, rfl⟩ := Option.map_eq_some_iff.1 hf
  obtain ⟨hhash, hkey⟩ := Entry.finds_iff.1 (List.find?_some he)
  rw [← hhash]
  rw [← hhash] at he
  exact ⟨List.mem_of_find?_eq_some he, hkey⟩

/-- What is found is the ordinal of a key that matches. -/
theorem keyAt_of_find? {ordinal : Nat} (hf : index.find? keyAt v = some ordinal) :
    ∃ key, keyAt ordinal = some key ∧ Key.isMatch key v = true :=
  (exists_entry_of_find? hf).2

lemma find?_eq_some (h : index.Holds entries) {ordinal : Nat}
    (hf : index.find? keyAt v = some ordinal) :
    (⟨v.hash, ordinal⟩ : Entry) ∈ entries ∧ ∃ key, keyAt ordinal = some key ∧
      Key.isMatch key v = true :=
  (exists_entry_of_find? hf).imp_left (h _).1

theorem find?_eq_none (h : index.Holds entries) (hf : index.find? keyAt v = none) {e : Entry}
    (he : e ∈ entries) (hhash : e.hash = v.hash) {key : κ} (hkey : keyAt e.ordinal = some key) :
    Key.isMatch key v = false := by
  have hmem : e ∈ index.chain v.hash := by
    rw [← hhash]
    exact (h e).2 he
  have hnot := List.find?_eq_none.1 (Option.map_eq_none_iff.1 hf) e hmem
  rw [Bool.eq_false_iff]
  exact fun hmatch => hnot (Entry.finds_iff.2 ⟨hhash, key, hkey, hmatch⟩)

end Lookup

end Index

namespace Table
open LawfulKey
variable {κ : Type} [Key κ] [LawfulKey κ] {keyAt : Nat → Option κ}

def entryOf (k : κ × Nat) : Index.Entry := ⟨(probe k.1).hash, k.2⟩

/-- A key that is not among those inserted goes in. -/
theorem insertNew_of_notMem {index : Index} {before : List (κ × Nat)}
    (h : index.Holds (before.map entryOf)) (hat : ∀ k ∈ before, keyAt k.2 = some k.1) {key : κ}
    (hnew : key ∉ before.map Prod.fst) (ordinal : Nat) :
    index.insertNew keyAt (probe key) ordinal = .ok (index.insert (probe key).hash ordinal) := by
  unfold Index.insertNew
  cases hf : index.find? keyAt (probe key) with
  | none => rfl
  | some i =>
    obtain ⟨hmem, key', hkey', hmatch⟩ := Index.find?_eq_some h hf
    obtain ⟨k, hk, he⟩ := List.mem_map.1 hmem
    have hi : k.2 = i := congrArg Index.Entry.ordinal he
    have heq : key' = key := probe_injective ((isMatch_iff key' _).1 hmatch)
    have hk1 : k.1 = key := by
      have hat' := hat k hk
      rw [hi, hkey', heq] at hat'
      exact (Option.some.inj hat').symm
    exact absurd (List.mem_map.2 ⟨k, hk, hk1⟩) hnew

/-- A key that is among those inserted does not. -/
theorem insertNew_of_mem {index : Index} {before : List (κ × Nat)}
    (h : index.Holds (before.map entryOf)) (hat : ∀ k ∈ before, keyAt k.2 = some k.1) {key : κ}
    (hold : key ∈ before.map Prod.fst) (ordinal : Nat) :
    ∃ i, index.insertNew keyAt (probe key) ordinal = .error i := by
  obtain ⟨k, hk, rfl⟩ := List.mem_map.1 hold
  unfold Index.insertNew
  cases hf : index.find? keyAt (probe k.1) with
  | some i => exact ⟨i, rfl⟩
  | none =>
    have hno := Index.find?_eq_none h hf (List.mem_map.2 ⟨k, hk, rfl⟩) rfl (hat k hk)
    rw [(isMatch_iff k.1 _).2 rfl] at hno
    cases hno

/-- Keys go into an index one after another, up to the first that is equal to an earlier one. An
index that has taken them all holds them, in as many buckets as before, but in one at least. -/
theorem indexKeys_outcome {keys before : List (κ × Nat)} {index : Index}
    (h : index.Holds (before.map entryOf)) (hat : ∀ k ∈ before ++ keys, keyAt k.2 = some k.1)
    (hbefore : (before.map Prod.fst).Nodup) :
    match indexKeys probe keyAt keys index with
    | .ok index' =>
      ((before ++ keys).map Prod.fst).Nodup ∧ index'.Holds ((before ++ keys).map entryOf) ∧
        index'.bucketCount = max index.bucketCount (min keys.length 1)
    | .error key => ∃ between ordinal after, keys = between ++ (key, ordinal) :: after ∧
      ((before ++ between).map Prod.fst).Nodup ∧ key ∈ (before ++ between).map Prod.fst := by
  induction keys generalizing before index with
  | nil =>
    rw [List.append_nil]
    exact ⟨hbefore, h, by simp⟩
  | cons k keys ih =>
    obtain ⟨key, ordinal⟩ := k
    have hassoc : ∀ rest, before ++ (key, ordinal) :: rest = (before ++ [(key, ordinal)]) ++ rest :=
      fun rest => by simp
    have hat' : ∀ k ∈ before, keyAt k.2 = some k.1 := fun k hk => hat k (List.mem_append_left _ hk)
    by_cases hold : key ∈ before.map Prod.fst
    · obtain ⟨i, herr⟩ := insertNew_of_mem h hat' hold ordinal
      rw [indexKeys, herr]
      exact ⟨[], ordinal, keys, rfl, by rwa [List.append_nil], by rwa [List.append_nil]⟩
    · have hholds : (index.insert (probe key).hash ordinal).Holds
          ((before ++ [(key, ordinal)]).map entryOf) := by
        rw [List.map_append]
        exact h.insert (probe key).hash ordinal
      have hnodup : ((before ++ [(key, ordinal)]).map Prod.fst).Nodup := by
        rw [List.map_append, List.map_singleton, ← List.concat_eq_append]
        exact hbefore.concat hold
      rw [hassoc] at hat ⊢
      have hrest := ih hholds hat hnodup
      rw [indexKeys, insertNew_of_notMem h hat' hold ordinal]
      dsimp only
      cases hresult : indexKeys probe keyAt keys (index.insert (probe key).hash ordinal) with
      | ok index' =>
        rw [hresult] at hrest
        obtain ⟨hall, hholds', hcount⟩ := hrest
        refine ⟨hall, hholds', ?_⟩
        rw [hcount, Index.bucketCount_insert, List.length_cons]
        omega
      | error key' =>
        rw [hresult] at hrest
        obtain ⟨between, ordinal', after, rfl, hbetween, hmem⟩ := hrest
        refine ⟨(key, ordinal) :: between, ordinal', after, rfl, ?_, ?_⟩
        · rwa [hassoc]
        · rwa [hassoc]

section WithBuckets
variable {keys : List (κ × Nat)} {n : Nat}

/-- What comes of indexing keys from nothing. -/
theorem indexKeys_withBuckets_outcome (hat : ∀ k ∈ keys, keyAt k.2 = some k.1) (n : Nat) :
    match indexKeys probe keyAt keys (.withBuckets n) with
    | .ok index => (keys.map Prod.fst).Nodup ∧ index.Holds (keys.map entryOf) ∧
      index.bucketCount = max n (min keys.length 1)
    | .error key => ∃ between ordinal after, keys = between ++ (key, ordinal) :: after ∧
      (between.map Prod.fst).Nodup ∧ key ∈ between.map Prod.fst := by
  have hholds : (Index.withBuckets n).Holds (([] : List (κ × Nat)).map entryOf) :=
    Index.holds_withBuckets n
  have houtcome := indexKeys_outcome hholds hat List.nodup_nil
  rwa [Index.bucketCount_withBuckets] at houtcome

/-- Only distinct keys can be indexed; the index holds them all. -/
theorem indexKeys_eq_ok {index : Index} (hat : ∀ k ∈ keys, keyAt k.2 = some k.1)
    (hok : indexKeys probe keyAt keys (.withBuckets n) = .ok index) :
    (keys.map Prod.fst).Nodup ∧ index.Holds (keys.map entryOf) ∧
      index.bucketCount = max n (min keys.length 1) := by
  have houtcome := indexKeys_withBuckets_outcome hat n
  rwa [hok] at houtcome

/-- Distinct keys can be indexed with any number of buckets. -/
theorem exists_indexKeys (hat : ∀ k ∈ keys, keyAt k.2 = some k.1)
    (hnodup : (keys.map Prod.fst).Nodup) (n : Nat) :
    ∃ index, indexKeys probe keyAt keys (.withBuckets n) = .ok index := by
  have houtcome := indexKeys_withBuckets_outcome hat n
  cases hresult : indexKeys probe keyAt keys (.withBuckets n) with
  | ok index => exact ⟨index, rfl⟩
  | error key =>
    rw [hresult] at houtcome
    obtain ⟨between, ordinal, after, rfl, _, hmem⟩ := houtcome
    rw [List.map_append, List.nodup_append] at hnodup
    exact absurd rfl (hnodup.2.2 key hmem key List.mem_cons_self)

/-- Without buckets, the first key gets one. -/
theorem indexKeys_withBuckets_zero (hne : keys ≠ []) :
    indexKeys probe keyAt keys (.withBuckets 0) = indexKeys probe keyAt keys (.withBuckets 1) := by
  cases keys with
  | nil => exact absurd rfl hne
  | cons k keys =>
    have hinsert : ∀ hash ordinal,
        (Index.withBuckets 0).insert hash ordinal = (Index.withBuckets 1).insert hash ordinal :=
      fun _ _ => rfl
    rw [indexKeys, indexKeys, Index.insertNew, Index.insertNew, Index.find?, Index.find?,
      Index.chain_withBuckets, Index.chain_withBuckets, hinsert]

/-- The number of buckets of an index leads to the same index again. -/
theorem indexKeys_bucketCount {index : Index} (hat : ∀ k ∈ keys, keyAt k.2 = some k.1)
    (hok : indexKeys probe keyAt keys (.withBuckets n) = .ok index) :
    indexKeys probe keyAt keys (.withBuckets index.bucketCount) = .ok index := by
  obtain ⟨_, _, hcount⟩ := indexKeys_eq_ok hat hok
  by_cases hne : keys = []
  · rw [hcount, hne, List.length_nil, Nat.zero_min, Nat.max_zero, ← hne]
    exact hok
  · have hlen : 0 < keys.length := List.length_pos_iff.2 hne
    rcases Nat.eq_zero_or_pos n with rfl | hn
    · have hone : index.bucketCount = 1 := by omega
      rw [hone, ← indexKeys_withBuckets_zero hne]
      exact hok
    · have hsame : index.bucketCount = n := by omega
      rw [hsame]
      exact hok

end WithBuckets

end Table

end KeyedTables
