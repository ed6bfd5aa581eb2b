import KeyedTables.Proofs.Catalog.Updates
import KeyedTables.Proofs.Snapshot.Recorder
import KeyedTables.Proofs.Table.Construction

/-!
# Bounds on what decoding acts upon

Whatever the bytes are, decoding acts upon bounded numbers only. A count is accepted if that many
bytes are left. A table is built from exactly the cells that were announced for it; since every atom
takes five bytes or more, they are bounded by the payload. The number of rows is not checked when it
is read: it is the product with the number of columns that is, and the product is what counts.
-/
namespace KeyedTables.Payload

open Decoder (TableRecord bucketLimit)

/-- What may be acted upon while a payload is decoded. -/
def Act.Bounded (p : List UInt8) : Act → Prop
  | .count _ n left => left <:+ p ∧ n ≤ left.length
  | .build rows columns r =>
    r.parts.columns ≠ [] ∧ r.parts.columns.length = columns ∧
      r.parts.cells.size = rows * columns ∧
      5 * (r.parts.columns.length + r.parts.cells.size) ≤ p.length ∧
      r.columnBuckets ≤ bucketCount columns + columns ∧ r.rowBuckets ≤ bucketCount rows + rows

def NotOfCells (e : Error) : Prop :=
  ∀ table rows columns cells, e ≠ .cellCount table rows columns cells

lemma notOfCells_snapshot (fault : SnapshotFault) : NotOfCells (.snapshot fault) := by
  intro table rows columns cells h
  cases h

/-- What is left behind at least `n` bytes of the input. -/
def Taken (n : Nat) (input rest : List UInt8) : Prop :=
  rest <:+ input ∧ rest.length + n ≤ input.length

lemma Taken.refl (input : List UInt8) : Taken 0 input input :=
  ⟨List.suffix_refl input, Nat.le_refl _⟩

lemma Taken.trans {m n : Nat} {a b c : List UInt8} (h : Taken m a b) (h' : Taken n b c) :
    Taken (m + n) a c := by
  obtain ⟨hsuffix, hlength⟩ := h
  obtain ⟨hsuffix', hlength'⟩ := h'
  exact ⟨hsuffix'.trans hsuffix, by omega⟩

lemma Taken.mono {m n : Nat} {a b : List UInt8} (h : Taken n a b) (hm : m ≤ n) :
    Taken m a b := ⟨h.1, by have := h.2; omega⟩

section Yields
variable {α β : Type} {d : Decoder α} {f : α → Decoder β} {input : List UInt8}
  {Q : α → List UInt8 → Prop} {R : β → List UInt8 → Prop}

/-- A result is as asked for, or else an error that is not about a number of cells. -/
def Yields (result : Except Error (α × List UInt8)) (Q : α → List UInt8 → Prop) : Prop :=
  match result with
  | .ok (a, rest) => Q a rest
  | .error e => NotOfCells e

lemma Yields.bind (hd : Yields (d input) Q) (hf : ∀ a rest, Q a rest → Yields (f a rest) R) :
    Yields ((d >>= f) input) R := by
  change Yields (d input >>= fun r => f r.1 r.2) R
  cases hrun : d input with
  | error e =>
    rw [hrun] at hd
    exact hd
  | ok r =>
    rw [hrun] at hd
    exact hf r.1 r.2 hd

lemma yields_fail (fault : SnapshotFault) : Yields (Decoder.fail fault input) Q :=
  notOfCells_snapshot fault

lemma yields_rest : Yields (Decoder.rest input) fun _ rest => Taken 0 input rest := .refl input

lemma yields_byte : Yields (Decoder.byte input) fun _ rest => Taken 1 input rest := by
  cases input with
  | nil => exact notOfCells_snapshot .truncated
  | cons b rest => exact ⟨List.suffix_cons b rest, Nat.le_refl _⟩

lemma yields_take (n : Nat) :
    Yields (Decoder.take n input) fun _ rest => Taken n input rest := by
  unfold Decoder.take
  split
  · rename_i r hsplit
    obtain ⟨rfl, hlength⟩ := Bytes.split?_eq_some_iff.1 hsplit
    refine ⟨List.suffix_append _ _, ?_⟩
    rw [List.length_append]
    omega
  · exact notOfCells_snapshot .truncated

lemma yields_word : Yields (Decoder.word input) fun _ rest => Taken 4 input rest :=
  (yields_take 4).bind fun _ _ h => h

lemma yields_doubleWord : Yields (Decoder.doubleWord input) fun _ rest => Taken 8 input rest :=
  (yields_take 8).bind fun _ _ h => h

lemma yields_count (width : Nat) : Yields (Decoder.count width input) fun n rest =>
    Taken 4 input rest ∧ n * width ≤ rest.length := by
  refine yields_word.bind fun n rest hrest => ?_
  change Yields ((if Bytes.atLeast (n * width) rest then pure n else Decoder.fail (.count n))
    rest) _
  split
  · rename_i h
    exact ⟨hrest, Bytes.atLeast_iff.1 h⟩
  · exact yields_fail _

lemma yields_ofExcept {x : Except Error α} (h : ∀ e, x = .error e → NotOfCells e) :
    Yields (Decoder.ofExcept x input) fun _ rest => Taken 0 input rest := by
  cases x with
  | error e => exact h e rfl
  | ok a => exact .refl input

end Yields

namespace Recorder

section Ensures
variable {α β : Type} {m : Recorder α} {f : α → Recorder β} {p input : List UInt8}
  {Q Q' : α → List UInt8 → Prop} {R : β → List UInt8 → Prop} {v w : Nat}

structure Ensures (p : List UInt8) (m : Recorder α) (input : List UInt8)
    (Q : α → List UInt8 → Prop) : Prop where
  acts : ∀ a ∈ (m input).1, a.Bounded p
  result : Yields (m input).2 Q

lemma Ensures.pure {a : α} (h : Q a input) : Ensures p (pure a) input Q :=
  ⟨fun _ ha => (List.not_mem_nil ha).elim, h⟩

lemma ensures_quietly {d : Decoder α} (h : Yields (d input) Q) :
    Ensures p (quietly d) input Q :=
  ⟨fun _ ha => (List.not_mem_nil ha).elim, h⟩

lemma Ensures.bind (hm : Ensures p m input Q)
    (hf : ∀ a rest, Q a rest → Ensures p (f a) rest R) : Ensures p (m >>= f) input R := by
  obtain ⟨hacts, hresult⟩ := hm
  cases hrun : m input with
  | mk acts result =>
    rw [hrun] at hacts hresult
    cases result with
    | error e =>
      refine ⟨?_, ?_⟩
      · rw [run_bind_of_error hrun]
        exact hacts
      · rw [run_bind_of_error hrun]
        exact hresult
    | ok r =>
      have hnext := hf r.1 r.2 hresult
      refine ⟨?_, ?_⟩
      · rw [run_bind_of_ok hrun]
        intro a ha
        exact (List.mem_append.1 ha).elim (hacts a) (hnext.acts a)
      · rw [run_bind_of_ok hrun]
        exact hnext.result

lemma Ensures.mono (hm : Ensures p m input Q) (h : ∀ a rest, Q a rest → Q' a rest) :
    Ensures p m input Q' := by
  refine ⟨hm.acts, ?_⟩
  have hresult := hm.result
  unfold Yields at hresult ⊢
  split at hresult
  · exact h _ _ hresult
  · exact hresult

/-- On what is left of the payload, all acts are bounded and `w` bytes or more are taken. -/
def Takes (p : List UInt8) (w : Nat) (m : Recorder α) : Prop :=
  ∀ input, input <:+ p → Ensures p m input fun _ rest => Taken w input rest

lemma Takes.pure (a : α) : Takes p 0 (pure a) := fun input _ => .pure (.refl input)

lemma Takes.bind (hm : Takes p w m) (hf : ∀ a, Takes p v (f a)) :
    Takes p (w + v) (m >>= f) := by
  intro input hinput
  refine (hm input hinput).bind fun a rest hrest => ?_
  exact (hf a rest (hrest.1.trans hinput)).mono fun _ _ hrest' => hrest.trans hrest'

lemma Takes.mono (hm : Takes p w m) (h : v ≤ w) : Takes p v m :=
  fun input hinput => (hm input hinput).mono fun _ _ hrest => hrest.mono h

lemma Takes.ite {q : Prop} [Decidable q] {m' : Recorder α} (hm : q → Takes p w m)
    (hm' : ¬ q → Takes p w m') : Takes p w (if q then m else m') := by
  split
  · exact hm ‹_›
  · exact hm' ‹_›

lemma takes_quietly {d : Decoder α}
    (h : ∀ input, Yields (d input) fun _ rest => Taken w input rest) : Takes p w (quietly d) :=
  fun input _ => ensures_quietly (h input)

lemma takes_fail (fault : SnapshotFault) :
    Takes p w (quietly (Decoder.fail fault) : Recorder α) :=
  takes_quietly fun _ => yields_fail fault

lemma takes_ofExcept {x : Except Error α} (h : ∀ e, x = .error e → NotOfCells e) :
    Takes p 0 (quietly (Decoder.ofExcept x)) := takes_quietly fun _ => yields_ofExcept h

end Ensures

section Items
variable {α : Type} {p input : List UInt8} {w : Nat}

lemma takes_rest : Takes p 0 (quietly Decoder.rest) := takes_quietly fun _ => yields_rest

lemma takes_byte : Takes p 1 (quietly Decoder.byte) := takes_quietly fun _ => yields_byte

lemma takes_word : Takes p 4 (quietly Decoder.word) := takes_quietly fun _ => yields_word

/-- A count is accepted with that many bytes left, if its items take any. -/
theorem takes_count (what : Counted) {width : Nat} (hwidth : 0 < width) :
    Takes p 4 (count what width) := by
  intro input hinput
  have hcount : Yields (Decoder.count width input) _ := yields_count width
  unfold Yields at hcount
  split at hcount
  · rename_i n rest hrun
    obtain ⟨hrest, hle⟩ := hcount
    have hn : n ≤ rest.length := Nat.le_trans (Nat.le_mul_of_pos_right n hwidth) hle
    have hrecord : count what width input = ([.count what n rest], .ok (n, rest)) := by
      rw [count, hrun]
    refine ⟨?_, ?_⟩
    · rw [hrecord]
      intro a ha
      rw [List.mem_singleton.1 ha]
      exact ⟨hrest.1.trans hinput, hn⟩
    · rw [hrecord]
      exact hrest
  · rename_i e hrun
    have hrecord : count what width input = ([], .error e) := by rw [count, hrun]
    refine ⟨?_, ?_⟩
    · rw [hrecord]
      exact fun a ha => (List.not_mem_nil ha).elim
    · rw [hrecord]
      exact hcount

/-- So many items, each of which takes `w` bytes or more. -/
theorem ensures_times {m : Recorder α} (hm : Takes p w m) (n : Nat) (hinput : input <:+ p) :
    Ensures p (times m n) input fun xs rest => xs.length = n ∧ Taken (w * n) input rest := by
  induction n generalizing input with
  | zero => exact .pure ⟨rfl, .refl input⟩
  | succ n ih =>
    refine (hm input hinput).bind fun x rest hx => ?_
    refine (ih (hx.1.trans hinput)).bind fun xs rest' hxs => ?_
    refine .pure ⟨congrArg (· + 1) hxs.1, ?_⟩
    rw [Nat.mul_succ, Nat.add_comm]
    exact hx.trans hxs.2

lemma Takes.times {m : Recorder α} (hm : Takes p w m) (n : Nat) : Takes p 0 (times m n) :=
  fun _ hinput => (ensures_times hm n hinput).mono fun _ _ h => h.2.mono (Nat.zero_le _)

lemma takes_text : Takes p 4 text := by
  refine (takes_count .bytes Nat.one_pos).bind (v := 0) fun n =>
    Takes.bind (v := 0) (.mono (takes_quietly fun _ => yields_take n) (Nat.zero_le n))
      fun bytes => ?_
  cases Utf8.decode bytes with
  | error fault => exact takes_fail _
  | ok cs => exact .pure _

lemma takes_atomOf (tag : UInt8) : Takes p 4 (atomOf tag) := by
  refine .ite (fun _ => takes_text.bind fun _ => .pure _) fun hsymbol =>
    .ite (fun _ => takes_text.bind fun _ => .pure _) fun hstring => ?_
  refine takes_quietly fun input => ?_
  rw [Decoder.atomOf, if_neg hsymbol, if_neg hstring]
  split
  · exact yields_doubleWord.bind fun _ _ h => h.mono (by omega)
  · split
    · exact yields_doubleWord.bind fun _ _ h => h.mono (by omega)
    · exact yields_fail _

lemma takes_atom : Takes p 5 atom :=
  takes_byte.bind takes_atomOf

lemma takes_value : Takes p 5 value :=
  takes_byte.bind fun tag => .ite
    (fun _ => (takes_count .atoms Nat.one_pos).bind fun n =>
      (takes_atom.times n).bind fun _ => .pure _)
    fun _ => (takes_atomOf tag).bind fun _ => .pure _

lemma takes_module : Takes p 8 module :=
  takes_text.bind fun _ => (takes_count .imports (by decide)).bind fun n =>
    (takes_text.times n).bind fun _ => .pure _

lemma takes_comment : Takes p 1 comment :=
  takes_byte.bind fun _ => .ite (fun _ => .pure _)
    fun _ => (takes_text.bind fun _ => .pure _).mono (Nat.zero_le 4)

end Items

section Tables
variable {p input : List UInt8}

/-- Parts are whole if their cells are so many rows of cells. -/
theorem whole_of_size {parts : Table.Parts} {rows : Nat} (hne : parts.columns ≠ [])
    (h : parts.cells.size = rows * parts.columns.length) : parts.Whole := by
  have hpos : 0 < parts.columns.length := List.length_pos_iff.2 hne
  have hrows : parts.rowCount = rows := by
    rw [Table.Parts.rowCount, Table.Parts.columnCount, h]
    exact Nat.mul_div_cancel rows hpos
  rw [Table.Parts.Whole, hrows]
  exact h

lemma ensures_build {rows columns : Nat} {r : TableRecord}
    (h : (Act.build rows columns r).Bounded p) :
    Ensures p (build rows columns r) input fun _ rest => Taken 0 input rest := by
  refine ⟨fun a ha => ?_, ?_⟩
  · rw [List.mem_singleton.1 ha]
    exact h
  · refine yields_ofExcept fun e he => ?_
    obtain ⟨hne, rfl, hcells, _⟩ := h
    intro table rows' columns' cells hcause
    rw [hcause] at he
    cases Table.buildWith_eq_error he with
    | cellCount hnot => exact hnot (whole_of_size hne hcells)

/-- Behind the head of a table there are its columns and its cells, of which it is built. -/
theorem takes_cells {name owner : String} {comment : Option String} {autoKeys : Bool}
    {rows columns columnBuckets rowBuckets : Nat} (hpos : columns ≠ 0)
    (hcolumns : columnBuckets ≤ bucketLimit columns) (hrows : rowBuckets ≤ bucketLimit rows) :
    Takes p 0 (do
      let keys ← times atom columns
      let cells ← times value (rows * columns)
      build rows columns
        ⟨⟨name, owner, comment, autoKeys, keys, cells.toArray⟩, columnBuckets, rowBuckets⟩) := by
  intro input hinput
  refine (ensures_times takes_atom columns hinput).bind fun keys rest hkeys => ?_
  obtain ⟨rfl, hrest⟩ := hkeys
  have hleft := hrest.1.trans hinput
  refine (ensures_times takes_value _ hleft).bind fun cells rest' hcells => ?_
  obtain ⟨hsize, hrest'⟩ := hcells
  have htaken := hrest.trans hrest'
  refine Ensures.mono (ensures_build ⟨?_, rfl, ?_, ?_, hcolumns, hrows⟩)
    fun _ _ h => (htaken.trans h).mono (Nat.zero_le _)
  · exact fun hnil => hpos (List.length_eq_zero_iff.2 hnil)
  · exact hsize
  · have hp := hinput.length_le
    have hlength := htaken.2
    change 5 * (keys.length + cells.length) ≤ p.length
    rw [hsize]
    omega

lemma takes_checkBuckets_bind {α : Type} {table : String} {axis : Axis} {buckets keys : Nat}
    {m : Recorder α} (hm : buckets ≤ bucketLimit keys → Takes p 0 m) :
    Takes p 0 (quietly (Decoder.checkBuckets table axis buckets keys) >>= fun _ => m) := by
  intro input hinput
  unfold Decoder.checkBuckets
  split
  · exact .bind (Q := fun _ _ => False) (ensures_quietly (yields_fail _)) fun _ _ h => h.elim
  · rename_i h
    exact .bind (Q := fun _ rest => rest = input) (.pure rfl) fun _ _ hrest =>
      hrest ▸ hm (Nat.le_of_not_lt h) input hinput

lemma takes_table (names : List String) : Takes p 4 (table names) := by
  refine Takes.bind (v := 0) takes_word fun ordinal => ?_
  cases names[ordinal]? with
  | none => exact takes_fail _
  | some owner =>
    refine Takes.mono (takes_text.bind fun name => takes_comment.bind fun comment =>
      takes_byte.bind fun autoKeys =>
      (takes_count .columns Nat.one_pos).bind fun columns =>
      takes_word.bind fun rows =>
      takes_word.bind fun columnBuckets =>
      takes_word.bind (v := 0) fun rowBuckets => ?_) (Nat.zero_le _)
    refine .ite (fun _ => takes_fail _) fun hpos => ?_
    refine Takes.bind (v := 0) takes_rest fun left => ?_
    refine .ite (fun _ => takes_fail _) fun _ => ?_
    exact takes_checkBuckets_bind fun hcolumns => takes_checkBuckets_bind fun hrows =>
      takes_cells hpos hcolumns hrows

lemma takes_tables (names : List String) (n : Nat) (c : Catalog) :
    Takes p 0 (tables names n c) := by
  induction n generalizing c with
  | zero => exact .pure c
  | succ n ih =>
    refine Takes.mono ((takes_table names).bind fun t => Takes.bind (w := 0) (takes_ofExcept ?_)
      fun r => ih r.1) (Nat.zero_le _)
    intro e he table rows columns cells hcause
    rw [hcause, Catalog.install_eq_error_iff] at he
    obtain ⟨_, h⟩ | ⟨_, _, _, h⟩ := he
    · cases h
    · cases h

end Tables

section Catalogs
variable {p : List UInt8}

lemma notOfCells_defineModules {modules : List (String × List String)} {c : Catalog} {e : Error}
    (h : defineModules modules c = .error e) : NotOfCells e := by
  induction modules generalizing c with
  | nil => cases h
  | cons m modules ih =>
    rw [defineModules] at h
    split at h
    · rename_i hdefine
      cases h
      obtain ⟨missing, _, rfl⟩ := Catalog.defineModule_eq_error_iff.1 hdefine
      intro table rows columns cells hcause
      cases hcause
    · exact ih h

lemma notOfCells_catalogOf {modules : List (String × List String)} {e : Error}
    (h : catalogOf modules = .error e) : NotOfCells e := by
  unfold catalogOf at h
  split at h
  · rename_i hdefine
    cases h
    exact notOfCells_defineModules hdefine
  · exact notOfCells_defineModules h

lemma notOfCells_setCurrent {c : Catalog} {name : String} {e : Error}
    (h : c.setCurrent name = .error e) : NotOfCells e := by
  intro table rows columns cells hcause
  unfold Catalog.setCurrent at h
  split at h
  · cases h
  · rw [hcause] at h
    cases h

lemma takes_catalog : Takes p 0 catalog :=
  Takes.mono (takes_text.bind fun current =>
    (takes_count .modules (by decide)).bind fun moduleCount =>
    (takes_module.times moduleCount).bind fun modules =>
    (takes_ofExcept fun _ => notOfCells_catalogOf).bind fun c =>
    (takes_count .tables (by decide)).bind fun tableCount =>
    (takes_tables _ tableCount c).bind fun c =>
    Takes.bind (w := 0) takes_rest fun rest =>
    .ite (fun _ => takes_fail _) fun _ => takes_ofExcept fun _ => notOfCells_setCurrent)
    (Nat.zero_le _)

end Catalogs

end Recorder

/-- Decoding acts upon bounded numbers only, whether the payload is accepted or not. Every count is
at most the number of bytes left behind it. A table is built from one column or more, from as many
cells as its numbers of rows and columns ask for, which take at least five bytes each, and with
bounded numbers of buckets. So no table is ever refused for the number of its cells; and the tables
of an accepted payload keep to the bounds on buckets. -/
theorem decode_acts_bounded (p : List UInt8) :
    decode p = (Recorder.catalog p).2.map Prod.fst ∧
      (∀ what n left, .count what n left ∈ (Recorder.catalog p).1 →
        left <:+ p ∧ n ≤ left.length) ∧
      (∀ rows columns r, .build rows columns r ∈ (Recorder.catalog p).1 →
        r.parts.columns ≠ [] ∧ r.parts.columns.length = columns ∧
          r.parts.cells.size = rows * columns ∧
          5 * (r.parts.columns.length + r.parts.cells.size) ≤ p.length ∧
          r.columnBuckets ≤ bucketCount columns + columns ∧
          r.rowBuckets ≤ bucketCount rows + rows) ∧
      (∀ table rows columns cells, decode p ≠ .error (.cellCount table rows columns cells)) ∧
      ∀ c, decode p = .ok c → ∀ t ∈ c.tables,
        t.table.columnIndex.bucketCount ≤ bucketCount t.table.columnCount + t.table.columnCount ∧
          t.table.rowIndex.bucketCount ≤ bucketCount t.table.rowCount + t.table.rowCount := by
  have hdecode : decode p = (Recorder.catalog p).2.map Prod.fst := by
    rw [Recorder.follows_catalog p]
    rfl
  obtain ⟨hacts, hresult⟩ := Recorder.takes_catalog p (List.suffix_refl p)
  refine ⟨hdecode, fun what n left h => hacts _ h, fun rows columns r h => hacts _ h, ?_, ?_⟩
  · intro table rows columns cells h
    rw [hdecode] at h
    cases hrun : (Recorder.catalog p).2 with
    | ok r =>
      rw [hrun] at h
      cases h
    | error e =>
      rw [hrun] at h hresult
      cases h
      exact hresult table rows columns cells rfl
  · intro c hc t ht
    have hsized := (sound_decode hc).valid.sized ht
    exact ⟨hsized.columnBuckets_le, hsized.rowBuckets_le⟩

/-- The payload of a module with a table of one cell: its table is built, within the bounds. -/
theorem decode_acts_bounded_of_one_cell :
    let bytes : List UInt8 :=
      [4, 0, 0, 0, 77, 65, 73, 78, 1, 0, 0, 0, 4, 0, 0, 0, 77, 65, 73, 78, 0, 0, 0, 0,
        1, 0, 0, 0, 0, 0, 0, 0, 1, 0, 0, 0, 116, 0, 0, 1, 0, 0, 0, 1, 0, 0, 0, 1, 0, 0, 0,
        1, 0, 0, 0, 0, 1, 0, 0, 0, 107, 2, 1, 0, 0, 0, 0, 0, 0, 0]
    (∃ r, .build 1 1 r ∈ (Recorder.catalog bytes).1 ∧ r.parts.cells.size = 1 ∧
      r.columnBuckets ≤ bucketCount 1 + 1 ∧ r.rowBuckets ≤ bucketCount 1 + 1) ∧
      ∃ c, decode bytes = .ok c ∧ c.tables.map (fun t => t.table.name) = ["t"] ∧
        ∀ t ∈ c.tables, t.table.columnIndex.bucketCount ≤
          bucketCount t.table.columnCount + t.table.columnCount := by
  intro bytes
  have hbuilds : (Recorder.catalog bytes).1.any
      (fun | .build 1 1 _ => true | _ => false) = true := by
    decide +kernel
  have hdecodes : (decode bytes).toOption.map (fun c => c.tables.map fun t => t.table.name) =
      some ["t"] := by
    decide +kernel
  obtain ⟨_, _, hbuild, _, htables⟩ := decode_acts_bounded bytes
  constructor
  · obtain ⟨act, hmem, hact⟩ := List.any_eq_true.1 hbuilds
    split at hact
    · rename_i r
      obtain ⟨_, _, hsize, _, hcolumns, hrows⟩ := hbuild 1 1 r hmem
      exact ⟨r, hmem, hsize, hcolumns, hrows⟩
    · cases hact
  · cases hc : decode bytes with
    | error e =>
      rw [hc] at hdecodes
      cases hdecodes
    | ok c =>
      rw [hc] at hdecodes
      exact ⟨c, rfl, Option.some.inj hdecodes, fun t ht => (htables c hc t ht).1⟩

end KeyedTables.Payload
