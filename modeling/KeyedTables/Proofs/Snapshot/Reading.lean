import KeyedTables.Proofs.Table.Sized
import KeyedTables.Proofs.Text.Utf8

/-!
# Reading what was written

Every item of a payload is read from the bytes that were written for it, whatever bytes come after
them, as long as these are fewer than a count of four bytes can tell. A count never asks for more
bytes than there are, since every item takes some; and the buckets of a sized table are within the
limit.
-/
namespace KeyedTables.Payload

section Lengths
variable {α : Type} {xs : List α}

theorem length_le_flatMap (enc : α → List UInt8) {x : α} (h : x ∈ xs) :
    (enc x).length ≤ (xs.flatMap enc).length := by
  induction xs with
  | nil => cases h
  | cons y ys ih =>
    rw [List.flatMap_cons, List.length_append]
    cases h with
    | head => omega
    | tail _ h =>
      have hy := ih h
      omega

theorem mul_le_length_flatMap (enc : α → List UInt8) {width : Nat}
    (h : ∀ x, width ≤ (enc x).length) (xs : List α) :
    xs.length * width ≤ (xs.flatMap enc).length := by
  induction xs with
  | nil => simp
  | cons y ys ih =>
    have hy := h y
    rw [List.flatMap_cons, List.length_append, List.length_cons, Nat.succ_mul]
    omega

theorem length_word (n : Nat) : (word n).length = 4 := Bytes.length_ofNat 4 n

lemma length_textBytes (s : String) :
    (textBytes s).length = 4 + (Utf8.encode s.toList).length := by
  rw [textBytes, List.length_append, length_word]

lemma le_length_textBytes (s : String) : 4 ≤ (textBytes s).length := by
  rw [length_textBytes]
  omega

lemma le_length_atomBytes (a : Atom) : 5 ≤ (atomBytes a).length := by
  cases a with
  | symbol s | string s =>
    rw [atomBytes, List.length_cons, length_textBytes]
    omega
  | integer i | float x =>
    rw [atomBytes, List.length_cons, Bytes.length_ofNat]
    omega

lemma le_length_valueBytes (v : Value) : 5 ≤ (valueBytes v).length := by
  cases v with
  | atom a => exact le_length_atomBytes a
  | multifield xs =>
    rw [valueBytes, List.length_cons, List.length_append, length_word]
    omega

theorem le_length_moduleBytes (m : Module) : 4 ≤ (moduleBytes m).length := by
  rw [moduleBytes, List.length_append, List.length_append, length_textBytes]
  omega

theorem le_length_tableBytes (ordinal : Nat) (t : Table) : 4 ≤ (tableBytes ordinal t).length := by
  simp only [tableBytes, List.length_append, length_word]
  omega

end Lengths

namespace Decoder
variable {α β : Type}

/-- In front of any other bytes, these are read as the given item. -/
def Reads (m : Decoder α) (bytes : List UInt8) (a : α) : Prop :=
  ∀ rest, m (bytes ++ rest) = .ok (a, rest)

section Steps
variable {m : Decoder α} {f : α → Decoder β} {a : α} {b : β} {bytes more : List UInt8}

theorem run_bind_of_ok {input rest : List UInt8} (h : m input = .ok (a, rest)) :
    (m >>= f) input = f a rest := by
  change (m input >>= fun p => f p.1 p.2) = f a rest
  rw [h]
  rfl

theorem run_rest (input : List UInt8) : Decoder.rest input = .ok (input, input) := rfl

theorem run_ofExcept (a : α) (input : List UInt8) : ofExcept (.ok a) input = .ok (a, input) := rfl

theorem Reads.pure (a : α) : Reads (pure a) [] a := fun _ => rfl

theorem Reads.bind (hm : Reads m bytes a) (hf : Reads (f a) more b) :
    Reads (m >>= f) (bytes ++ more) b := by
  intro rest
  rw [List.append_assoc, run_bind_of_ok (hm (more ++ rest))]
  exact hf rest

/-- A step that takes no bytes, in front of others. -/
theorem Reads.nil_bind (hm : Reads m [] a) (hf : Reads (f a) bytes b) : Reads (m >>= f) bytes b := by
  have h := hm.bind hf
  rwa [List.nil_append] at h

/-- A step that takes no bytes, behind others. -/
theorem Reads.bind_nil (hm : Reads m bytes a) (hf : Reads (f a) [] b) : Reads (m >>= f) bytes b := by
  have h := hm.bind hf
  rwa [List.append_nil] at h

lemma Reads.bind_pure (hm : Reads m bytes a) (f : α → β) :
    Reads (m >>= fun a => Pure.pure (f a)) bytes (f a) := hm.bind_nil (.pure (f a))

lemma reads_take {n : Nat} (h : bytes.length = n) : Reads (take n) bytes bytes := by
  intro rest
  rw [take, ← h, Bytes.split?_append]

lemma Reads.bind_byte {f : UInt8 → Decoder β} {first : UInt8} (hf : Reads (f first) bytes b) :
    Reads (byte >>= f) (first :: bytes) b := fun rest => hf rest

lemma reads_word {n : Nat} (h : n < 0x100000000) : Reads word (Payload.word n) n := by
  intro rest
  have hlt : n < Nat.pow 256 4 := h
  have hread := (reads_take (length_word n)).bind_pure Bytes.toNat rest
  rw [Payload.word, Bytes.toNat_ofNat, Nat.mod_eq_of_lt hlt] at hread
  exact hread

lemma reads_doubleWord (x : UInt64) : Reads doubleWord (Bytes.ofNat 8 x.toNat) x := by
  intro rest
  have hlt : x.toNat < Nat.pow 256 8 := x.toNat_lt
  have hread := (reads_take (Bytes.length_ofNat 8 x.toNat)).bind_pure
    (fun bs => UInt64.ofNat (Bytes.toNat bs)) rest
  rw [Bytes.toNat_ofNat, Nat.mod_eq_of_lt hlt, UInt64.ofNat_toNat] at hread
  exact hread

/-- What is left may be looked at; there are at least the bytes still to be read. -/
theorem Reads.bind_rest {f : List UInt8 → Decoder β}
    (hf : ∀ input, bytes.length ≤ input.length → Reads (f input) bytes b) :
    Reads (Decoder.rest >>= f) bytes b := by
  intro rest
  rw [run_bind_of_ok (run_rest _)]
  exact hf (bytes ++ rest) (by rw [List.length_append]; omega) rest

/-- A count is accepted in front of the items that it counts. -/
theorem run_count {n width : Nat} {input : List UInt8} (hn : n < 0x100000000)
    (hwidth : n * width ≤ input.length) : count width (Payload.word n ++ input) = .ok (n, input) := by
  unfold count
  rw [run_bind_of_ok (reads_word hn input), run_bind_of_ok (run_rest _),
    if_pos (Bytes.atLeast_iff.2 hwidth)]
  rfl

lemma Reads.bind_count {f : Nat → Decoder β} {n width : Nat} (hn : n < 0x100000000)
    (hwidth : n * width ≤ bytes.length) (hf : Reads (f n) bytes b) :
    Reads (count width >>= f) (Payload.word n ++ bytes) b := by
  intro rest
  have hle : n * width ≤ (bytes ++ rest).length := by
    rw [List.length_append]
    omega
  rw [List.append_assoc, run_bind_of_ok (run_count hn hle)]
  exact hf rest

/-- Items one after another are read one after another. -/
theorem reads_times {item : Decoder β} {enc : α → List UInt8} {f : α → β} {xs : List α}
    (h : ∀ x ∈ xs, Reads item (enc x) (f x)) :
    Reads (times item xs.length) (xs.flatMap enc) (xs.map f) := by
  induction xs with
  | nil => exact fun rest => times_zero item rest
  | cons x xs ih =>
    intro rest
    have hx := h x List.mem_cons_self (xs.flatMap enc ++ rest)
    have hxs := ih (fun y hy => h y (List.mem_cons_of_mem _ hy)) rest
    rw [List.length_cons, times_succ, List.flatMap_cons, List.append_assoc, hx]
    dsimp only
    rw [hxs]
    rfl

/-- So are items that are read if they are short, if all together are short. -/
theorem reads_items {item : Decoder α} (enc : α → List UInt8) {bound : Nat}
    (hitem : ∀ x, (enc x).length < bound → Reads item (enc x) x) {xs : List α}
    (h : (xs.flatMap enc).length < bound) : Reads (times item xs.length) (xs.flatMap enc) xs := by
  have htimes := reads_times (f := id) fun x hx =>
    hitem x (Nat.lt_of_le_of_lt (length_le_flatMap enc hx) h)
  rwa [List.map_id] at htimes

end Steps

theorem reads_text {s : String} (h : (textBytes s).length < 0x100000000) : Reads text (textBytes s) s := by
  rw [length_textBytes] at h
  refine Reads.bind_count (by omega) (by omega) ((reads_take rfl).bind_nil ?_)
  rw [Utf8.decode_encode]
  change Reads (Pure.pure (String.ofList s.toList)) [] s
  rw [String.ofList_toList]
  exact .pure s

/-- An atom is a tag other than that of multifields, and what its tag says. -/
theorem reads_atomOf {a : Atom} (h : (atomBytes a).length < 0x100000000) :
    ∃ tag bytes, atomBytes a = tag :: bytes ∧ tag ≠ 4 ∧ Reads (atomOf tag) bytes a := by
  cases a with
  | symbol s =>
    rw [atomBytes, List.length_cons] at h
    exact ⟨0, textBytes s, rfl, by decide, (reads_text (by omega)).bind_pure Atom.symbol⟩
  | string s =>
    rw [atomBytes, List.length_cons] at h
    exact ⟨1, textBytes s, rfl, by decide, (reads_text (by omega)).bind_pure Atom.string⟩
  | integer i =>
    exact ⟨2, _, rfl, by decide,
      (reads_doubleWord i.toUInt64).bind_pure fun x => Atom.integer x.toInt64⟩
  | float x =>
    exact ⟨3, _, rfl, by decide, (reads_doubleWord x.bits).bind_pure fun x => Atom.float ⟨x⟩⟩

lemma reads_atom {a : Atom} (h : (atomBytes a).length < 0x100000000) : Reads atom (atomBytes a) a := by
  obtain ⟨tag, bytes, hbytes, _, hread⟩ := reads_atomOf h
  rw [hbytes]
  exact hread.bind_byte

lemma reads_value {v : Value} (h : (valueBytes v).length < 0x100000000) :
    Reads value (valueBytes v) v := by
  cases v with
  | atom a =>
    obtain ⟨tag, bytes, hbytes, htag, hread⟩ := reads_atomOf h
    rw [valueBytes, hbytes]
    refine Reads.bind_byte ?_
    rw [if_neg htag]
    exact hread.bind_pure Value.atom
  | multifield xs =>
    rw [valueBytes, List.length_cons, List.length_append, length_word] at h
    have hlen := mul_le_length_flatMap atomBytes le_length_atomBytes xs
    refine Reads.bind_byte ?_
    rw [if_pos rfl]
    refine Reads.bind_count (by omega) (by omega) ?_
    exact (reads_items atomBytes (fun _ => reads_atom) (by omega)).bind_pure Value.multifield

theorem reads_module {m : Module} (h : (moduleBytes m).length < 0x100000000) :
    Reads module (moduleBytes m) (m.name, m.imports) := by
  rw [moduleBytes, List.append_assoc] at h ⊢
  rw [List.length_append, List.length_append, length_word] at h
  have hlen := mul_le_length_flatMap textBytes le_length_textBytes m.imports
  refine (reads_text (by omega)).bind (Reads.bind_count (by omega) hlen ?_)
  exact (reads_items textBytes (fun _ => reads_text) (by omega)).bind_pure fun imports => (m.name, imports)

lemma reads_comment {comment : Option String} (h : (commentBytes comment).length < 0x100000000) :
    Reads Decoder.comment (commentBytes comment) comment := by
  cases comment with
  | none =>
    refine Reads.bind_byte ?_
    rw [if_pos rfl]
    exact .pure none
  | some c =>
    rw [commentBytes, List.length_cons] at h
    refine Reads.bind_byte ?_
    rw [if_neg (by decide)]
    exact (reads_text (by omega)).bind_pure some

lemma reads_checkBuckets {table : String} {axis : Axis} {buckets keys : Nat}
    (h : buckets ≤ bucketLimit keys) : Reads (checkBuckets table axis buckets keys) [] () := by
  rw [checkBuckets, if_neg (Nat.not_lt.2 h)]
  exact .pure ()

lemma le_primeFrom (fuel n : Nat) : primeFrom fuel n ≤ n + fuel := by
  induction fuel generalizing n with
  | zero => exact Nat.le_refl n
  | succ fuel ih =>
    rw [primeFrom]
    split
    · omega
    · have hnext := ih (n + 1)
      omega

/-- No more than four buckets a key are allowed. -/
theorem bucketLimit_le (keys : Nat) : bucketLimit keys ≤ 4 * keys := by
  unfold bucketLimit bucketCount
  split
  · omega
  · have hprime := le_primeFrom (max ((keys * 5 + 3) / 4) 2) (max ((keys * 5 + 3) / 4) 2)
    unfold nextPrime
    omega

/-- A sized table is read as its parts and its numbers of buckets. -/
theorem reads_table {names : List String} {ordinal : Nat} {t : Table}
    (howner : names[ordinal]? = some t.module) (hordinal : ordinal < 0x100000000) (hsized : t.Sized)
    (h : (tableBytes ordinal t).length < 0x100000000) :
    Reads (table names) (tableBytes ordinal t)
      ⟨t.toParts, t.columnIndex.bucketCount, t.rowIndex.bucketCount⟩ := by
  simp only [tableBytes, List.append_assoc] at h ⊢
  simp only [List.length_append, length_word] at h
  have hcells : t.cells.toList.length = t.rowCount * t.columnCount := t.keyed.size_cells
  have hcolumnsLength := mul_le_length_flatMap atomBytes le_length_atomBytes t.columns
  have hcellsLength := mul_le_length_flatMap valueBytes le_length_valueBytes t.cells.toList
  rw [hcells] at hcellsLength
  have hpos : 0 < t.columnCount := List.length_pos_iff.2 hsized.columns_ne_nil
  have hrows : t.rowCount ≤ t.rowCount * t.columnCount := Nat.le_mul_of_pos_right _ hpos
  have hcb := Nat.le_trans hsized.columnBuckets_le (bucketLimit_le _)
  have hrb := Nat.le_trans hsized.rowBuckets_le (bucketLimit_le _)
  have hcount : t.columnCount = t.columns.length := rfl
  refine (reads_word hordinal).bind ?_
  rw [howner]
  refine (reads_text (by omega)).bind ((reads_comment (by omega)).bind (Reads.bind_byte ?_))
  refine Reads.bind_count (by omega) ?_ ?_
  · simp only [List.length_append]
    omega
  refine (reads_word (by omega)).bind ((reads_word (by omega)).bind ((reads_word (by omega)).bind ?_))
  rw [if_neg (Nat.ne_of_gt hpos)]
  refine Reads.bind_rest fun input hinput => ?_
  rw [List.length_append] at hinput
  rw [if_neg (by rw [Bytes.atLeast_iff.2 (by omega)]; decide)]
  refine (reads_checkBuckets hsized.columnBuckets_le).nil_bind ?_
  refine (reads_checkBuckets hsized.rowBuckets_le).nil_bind ?_
  have hcellsLength' : (t.cells.toList.flatMap valueBytes).length < 0x100000000 := by omega
  have hcellsRead := reads_items valueBytes (fun _ => reads_value) hcellsLength'
  rw [hcells] at hcellsRead
  refine (reads_items atomBytes (fun _ => reads_atom) (by omega)).bind (hcellsRead.bind_nil ?_)
  have hauto : decide ((if t.autoKeys then 1 else 0 : UInt8) ≠ 0) = t.autoKeys := by
    cases t.autoKeys <;> rfl
  rw [hauto, Array.toArray_toList]
  exact .pure _

end Decoder

end KeyedTables.Payload
