import KeyedTables.Proofs.Table.Index
import Mathlib.Algebra.BigOperators.Group.Finset.Piecewise

/-!
# Indices as lists of entries

Whatever is done to an index, it answers as the list of its entries in order of insertion would: a
probe finds the earliest entry that stands for it. The buckets divide this list among them, each
entry standing in the bucket of its hash, so that how many there are cannot be told from any answer.
-/
namespace KeyedTables.Index

inductive Operation
  | insert (hash : UInt64) (ordinal : Nat)
  | insertNew (probe : Value) (ordinal : Nat)
  | find (probe : Value)

namespace Operation

def runAll {σ : Type} (step : Operation → σ → Option Nat × σ) :
    List Operation → σ → List (Option Nat) × σ
  | [], s => ([], s)
  | op :: ops, s =>
    let (answer, s) := step op s
    let (answers, s) := runAll step ops s
    (answer :: answers, s)

/-- What each operation keeps of two states, giving the same answer, a run of them keeps. -/
theorem runAll_simulates {σ τ : Type} {f : Operation → σ → Option Nat × σ}
    {g : Operation → τ → Option Nat × τ} {R : σ → τ → Prop}
    (hstep : ∀ op s t, R s t → (f op s).1 = (g op t).1 ∧ R (f op s).2 (g op t).2)
    (ops : List Operation) {s : σ} {t : τ} (h : R s t) :
    (runAll f ops s).1 = (runAll g ops t).1 ∧ R (runAll f ops s).2 (runAll g ops t).2 := by
  induction ops generalizing s t with
  | nil => exact ⟨rfl, h⟩
  | cons op ops ih =>
    obtain ⟨hanswer, h'⟩ := hstep op s t h
    obtain ⟨hanswers, hend⟩ := ih h'
    exact ⟨congrArg₂ List.cons hanswer hanswers, hend⟩

end Operation

section Operations
variable {κ : Type} [Key κ] (keyAt : Nat → Option κ)

/-- The ordinal of the earliest entry that stands for the probe. -/
def earliest (probe : Value) (entries : List Entry) : Option Nat :=
  (entries.find? (Entry.finds keyAt probe)).map Entry.ordinal

/-- The answer of an index is the ordinal found; a new key that is found is not inserted. -/
def Operation.onIndex : Operation → Index → Option Nat × Index
  | insert hash ordinal, index => (none, index.insert hash ordinal)
  | insertNew probe ordinal, index =>
    match index.insertNew keyAt probe ordinal with
    | .error existing => (some existing, index)
    | .ok index => (none, index)
  | find probe, index => (index.find? keyAt probe, index)

def Operation.onEntries : Operation → List Entry → Option Nat × List Entry
  | insert hash ordinal, entries => (none, entries ++ [⟨hash, ordinal⟩])
  | insertNew probe ordinal, entries =>
    match earliest keyAt probe entries with
    | some existing => (some existing, entries)
    | none => (none, entries ++ [⟨probe.hash, ordinal⟩])
  | find probe, entries => (earliest keyAt probe entries, entries)

end Operations

/-- An index has these entries: each bucket those of its hashes, in order, and no entry without a
bucket. -/
structure Represents (index : Index) (entries : List Entry) : Prop where
  size_eq : index.size = entries.length
  bucket_eq : ∀ i < index.bucketCount,
    index.buckets.getD i [] = entries.filter fun e => slot e.hash index.bucketCount = i
  eq_nil : index.bucketCount = 0 → entries = []

lemma slot_lt {n : Nat} (hn : 0 < n) (hash : UInt64) : slot hash n < n := Nat.mod_lt _ hn

/-- Every entry is in one bucket. -/
theorem sum_length_filter_slot {n : Nat} (hn : 0 < n) (entries : List Entry) :
    ∑ i ∈ Finset.range n, (entries.filter fun e => slot e.hash n = i).length = entries.length := by
  induction entries with
  | nil => simp
  | cons e entries ih =>
    have hcons : ∀ i, ((e :: entries).filter fun e => slot e.hash n = i).length =
        (entries.filter fun e => slot e.hash n = i).length + if slot e.hash n = i then 1 else 0 := by
      intro i
      rw [List.filter_cons]
      by_cases h : slot e.hash n = i
      · simp [h]
      · simp [h]
    simp only [hcons, Finset.sum_add_distrib, ih, Finset.sum_ite_eq, Finset.mem_range,
      slot_lt hn, if_true, List.length_cons]

lemma represents_withBuckets (n : Nat) : (withBuckets n).Represents [] where
  size_eq := rfl
  bucket_eq i hi := by
    rw [bucketCount_withBuckets] at hi
    simp [withBuckets, hi]
  eq_nil _ := rfl

namespace Represents
variable {index : Index} {entries : List Entry}

lemma insert (h : index.Represents entries) (hash : UInt64) (ordinal : Nat) :
    (index.insert hash ordinal).Represents (entries ++ [⟨hash, ordinal⟩]) where
  size_eq := by rw [size_insert, h.size_eq, List.length_append, List.length_singleton]
  bucket_eq i hi := by
    rw [bucketCount_insert] at hi ⊢
    rw [bucket_insert, List.filter_append, List.filter_singleton]
    have hbucket : index.buckets.getD i [] =
        entries.filter fun e => slot e.hash (max index.bucketCount 1) = i := by
      rcases Nat.eq_zero_or_pos index.bucketCount with hzero | hpos
      · have hs : index.buckets.size = 0 := hzero
        rw [h.eq_nil hzero]
        simp [hs]
      · rw [Nat.max_eq_left hpos] at hi ⊢
        exact h.bucket_eq i hi
    rw [hbucket]
    by_cases hslot : slot hash (max index.bucketCount 1) = i
    · simp [hslot]
    · simp [hslot]
  eq_nil hzero := by
    rw [bucketCount_insert] at hzero
    omega

/-- A chain consists of the entries that share a bucket with the hash. -/
theorem chain_eq (h : index.Represents entries) (hash : UInt64) :
    index.chain hash =
      entries.filter fun e => slot e.hash index.bucketCount = slot hash index.bucketCount := by
  rcases Nat.eq_zero_or_pos index.bucketCount with hzero | hpos
  · have hs : index.buckets.size = 0 := hzero
    rw [h.eq_nil hzero, chain]
    simp [hs]
  · exact h.bucket_eq _ (slot_lt hpos hash)

lemma getElem_eq (h : index.Represents entries) (i : Nat) (hi : i < index.buckets.size) :
    index.buckets[i] = entries.filter fun e => slot e.hash index.bucketCount = i := by
  rw [Array.getElem_eq_getD [], h.bucket_eq i hi]

lemma sum_chainLengths (h : index.Represents entries) :
    index.chainLengths.sum = entries.length := by
  rcases Nat.eq_zero_or_pos index.bucketCount with hzero | hpos
  · have hnil : index.buckets = #[] := Array.size_eq_zero_iff.1 hzero
    rw [h.eq_nil hzero, chainLengths, hnil]
    rfl
  · have hlengths : index.chainLengths = (List.range index.bucketCount).map fun i =>
        (entries.filter fun e => slot e.hash index.bucketCount = i).length := by
      refine List.ext_getElem (by simp [chainLengths, bucketCount]) fun i hi hi' => ?_
      rw [List.length_map, List.length_range] at hi'
      rw [List.getElem_map, List.getElem_range, ← h.getElem_eq i hi']
      simp only [chainLengths, List.getElem_map, Array.getElem_toList]
      rfl
    rw [hlengths]
    exact sum_length_filter_slot hpos entries

section Lookup
variable {κ : Type} [Key κ] {keyAt : Nat → Option κ} (h : index.Represents entries)
include h

/-- Only entries of the probe's bucket stand for the probe, so the others need not be asked. -/
theorem find?_eq (probe : Value) : index.find? keyAt probe = earliest keyAt probe entries := by
  rw [find?, earliest, h.chain_eq, List.find?_filter]
  congr 2
  funext e
  by_cases hfinds : e.finds keyAt probe = true
  · simp [hfinds, (Entry.finds_iff.1 hfinds).1]
  · simp [hfinds]

lemma insertNew_eq (probe : Value) (ordinal : Nat) :
    index.insertNew keyAt probe ordinal =
      match earliest keyAt probe entries with
      | some existing => .error existing
      | none => .ok (index.insert probe.hash ordinal) := by
  have hfind : index.find? keyAt probe = earliest keyAt probe entries := h.find?_eq probe
  cases he : earliest keyAt probe entries with
  | some existing => simp [insertNew, hfind, he]
  | none => simp [insertNew, hfind, he]

/-- One operation has the answer it has on the entries, and leads to an index of the entries
afterwards. -/
theorem step (op : Operation) :
    (op.onIndex keyAt index).1 = (op.onEntries keyAt entries).1 ∧
      (op.onIndex keyAt index).2.Represents (op.onEntries keyAt entries).2 := by
  cases op with
  | insert hash ordinal => exact ⟨rfl, h.insert hash ordinal⟩
  | insertNew probe ordinal =>
    rw [Operation.onIndex, Operation.onEntries, h.insertNew_eq]
    cases earliest keyAt probe entries with
    | some existing => exact ⟨rfl, h⟩
    | none => exact ⟨rfl, h.insert probe.hash ordinal⟩
  | find probe => exact ⟨h.find?_eq probe, h⟩

end Lookup

end Represents

lemma represents_runAll {κ : Type} [Key κ] (keyAt : Nat → Option κ) (ops : List Operation)
    (n : Nat) :
    (Operation.runAll (·.onIndex keyAt) ops (withBuckets n)).1 =
        (Operation.runAll (·.onEntries keyAt) ops []).1 ∧
      (Operation.runAll (·.onIndex keyAt) ops (withBuckets n)).2.Represents
        (Operation.runAll (·.onEntries keyAt) ops []).2 :=
  Operation.runAll_simulates (fun op _ _ h => h.step op) ops (represents_withBuckets n)

/-- Whatever is done to an index with any number of buckets, it answers as the list of entries in
order of insertion, and each bucket has the entries of its hashes. So any two numbers of buckets
lead to the same answers. -/
theorem index_refines_entries {κ : Type} [Key κ] (keyAt : Nat → Option κ) (ops : List Operation)
    (n : Nat) :
    let (answers, entries) := Operation.runAll (·.onEntries keyAt) ops []
    let (answers', index) := Operation.runAll (·.onIndex keyAt) ops (withBuckets n)
    answers' = answers ∧
      (∀ probe, index.find? keyAt probe = earliest keyAt probe entries) ∧
      (∀ probe ordinal, index.insertNew keyAt probe ordinal =
        match earliest keyAt probe entries with
        | some existing => .error existing
        | none => .ok (index.insert probe.hash ordinal)) ∧
      index.size = entries.length ∧ index.chainLengths.sum = entries.length ∧
      (∀ (i : Nat) (hi : i < index.buckets.size), index.buckets[i] =
        entries.filter fun e => slot e.hash index.bucketCount = i) ∧
      ∀ m, let (answers'', index') := Operation.runAll (·.onIndex keyAt) ops (withBuckets m)
        answers'' = answers' ∧
          ∀ op : Operation, (op.onIndex keyAt index').1 = (op.onIndex keyAt index).1 := by
  obtain ⟨hanswers, h⟩ := represents_runAll keyAt ops n
  refine ⟨hanswers, h.find?_eq, h.insertNew_eq, h.size_eq, h.sum_chainLengths, h.getElem_eq, ?_⟩
  intro m
  obtain ⟨hanswers', h'⟩ := represents_runAll keyAt ops m
  exact ⟨hanswers'.trans hanswers.symm, fun op => (h'.step op).1.trans (h.step op).1.symm⟩

end KeyedTables.Index
