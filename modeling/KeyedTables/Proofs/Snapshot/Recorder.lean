import KeyedTables.Proofs.Snapshot.Decoding

/-!
# Decoding on record

The decoders of payloads once more, with a record of what they act upon: every count that is
accepted, with the bytes that are left behind it, and every table that is built. The record is kept
also if decoding fails. Apart from it they are the decoders themselves.
-/
namespace KeyedTables.Payload

open Decoder (TableRecord)

lemma Decoder.times_succ_eq_bind {α : Type} (item : Decoder α) (n : Nat) :
    Decoder.times item (n + 1) = (do
      let x ← item
      let xs ← Decoder.times item n
      return x :: xs) := by
  funext input
  rw [Decoder.times_succ]
  change _ = (item input >>= fun r => Decoder.times item n r.2 >>= _)
  cases item input with
  | error e => rfl
  | ok r =>
    change _ = (Decoder.times item n r.2 >>= _)
    dsimp only
    cases Decoder.times item n r.2 <;> rfl

/-- What a count in a payload counts. -/
inductive Counted
  | bytes
  | modules
  | imports
  | tables
  | columns
  | atoms
  deriving DecidableEq, Repr

/-- What decoding acts upon. -/
inductive Act
  /-- A count is accepted, these bytes being left behind it. -/
  | count (what : Counted) (n : Nat) (left : List UInt8)
  /-- A table is built from a record that announces so many rows and columns. -/
  | build (rows columns : Nat) (r : TableRecord)

/-- A decoder that keeps a record of its acts. -/
def Recorder (α : Type) := List UInt8 → List Act × Except Error (α × List UInt8)

namespace Recorder

instance : Monad Recorder where
  pure a := fun input => ([], .ok (a, input))
  bind m f := fun input =>
    match m input with
    | (acts, .ok (a, rest)) => (acts ++ (f a rest).1, (f a rest).2)
    | (acts, .error e) => (acts, .error e)

def quietly {α : Type} (m : Decoder α) : Recorder α := fun input => ([], m input)

def count (what : Counted) (width : Nat) : Recorder Nat := fun input =>
  match Decoder.count width input with
  | .ok (n, rest) => ([.count what n rest], .ok (n, rest))
  | .error e => ([], .error e)

def times {α : Type} (item : Recorder α) : Nat → Recorder (List α)
  | 0 => pure []
  | n + 1 => do
    let x ← item
    let xs ← times item n
    return x :: xs

def text : Recorder String := do
  let n ← count .bytes 1
  match Utf8.decode (← quietly (Decoder.take n)) with
  | .ok cs => pure (String.ofList cs)
  | .error fault => quietly (Decoder.fail (.text fault))

def atomOf (tag : UInt8) : Recorder Atom :=
  if tag = 0 then do return .symbol (← text)
  else if tag = 1 then do return .string (← text)
  else quietly (Decoder.atomOf tag)

def atom : Recorder Atom := do atomOf (← quietly Decoder.byte)

def value : Recorder Value := do
  let tag ← quietly Decoder.byte
  if tag = 4 then do
    let n ← count .atoms 1
    return .multifield (← times atom n)
  else do return .atom (← atomOf tag)

def module : Recorder (String × List String) := do
  let name ← text
  let n ← count .imports 4
  return (name, ← times text n)

def comment : Recorder (Option String) := do
  if (← quietly Decoder.byte) = 0 then return none else return some (← text)

/-- Builds the table of a record that announces so many rows and columns. -/
def build (rows columns : Nat) (r : TableRecord) : Recorder Table := fun input =>
  ([.build rows columns r],
    Decoder.ofExcept (Table.buildWith r.parts r.columnBuckets r.rowBuckets) input)

def table (names : List String) : Recorder Table := do
  let ordinal ← quietly Decoder.word
  match names[ordinal]? with
  | none => quietly (Decoder.fail (.moduleOrdinal ordinal))
  | some owner => do
    let name ← text
    let comment ← comment
    let autoKeys ← quietly Decoder.byte
    let columnCount ← count .columns 1
    let rowCount ← quietly Decoder.word
    let columnBuckets ← quietly Decoder.word
    let rowBuckets ← quietly Decoder.word
    if columnCount = 0 then quietly (Decoder.fail (.noColumns name))
    else do
      let rest ← quietly Decoder.rest
      if !Bytes.atLeast (rowCount * columnCount) rest then
        quietly (Decoder.fail (.cellCount name))
      else do
        quietly (Decoder.checkBuckets name .column columnBuckets columnCount)
        quietly (Decoder.checkBuckets name .row rowBuckets rowCount)
        let columns ← times atom columnCount
        let cells ← times value (rowCount * columnCount)
        build rowCount columnCount ⟨⟨name, owner, comment, autoKeys ≠ 0, columns, cells.toArray⟩,
          columnBuckets, rowBuckets⟩

def tables (names : List String) : Nat → Catalog → Recorder Catalog
  | 0, c => pure c
  | n + 1, c => do
    let t ← table names
    let (c, _) ← quietly (Decoder.ofExcept (c.install t))
    tables names n c

def catalog : Recorder Catalog := do
  let current ← text
  let moduleCount ← count .modules 4
  let modules ← times module moduleCount
  let c ← quietly (Decoder.ofExcept (catalogOf modules))
  let tableCount ← count .tables 4
  let c ← tables (modules.map Prod.fst) tableCount c
  let rest ← quietly Decoder.rest
  if rest ≠ [] then quietly (Decoder.fail (.trailing rest.length))
  else quietly (Decoder.ofExcept (c.setCurrent current))

section Steps
variable {α β : Type} {m : Recorder α} {f : α → Recorder β} {input rest : List UInt8}

theorem run_bind_of_ok {acts : List Act} {a : α} (h : m input = (acts, .ok (a, rest))) :
    (m >>= f) input = (acts ++ (f a rest).1, (f a rest).2) := by
  change (match m input with
    | (acts, .ok (a, rest)) => (acts ++ (f a rest).1, (f a rest).2)
    | (acts, .error e) => (acts, .error e)) = _
  rw [h]

theorem run_bind_of_error {acts : List Act} {e : Error} (h : m input = (acts, .error e)) :
    (m >>= f) input = (acts, .error e) := by
  change (match m input with
    | (acts, .ok (a, rest)) => (acts ++ (f a rest).1, (f a rest).2)
    | (acts, .error e) => (acts, .error e)) = _
  rw [h]

end Steps

section Follows
variable {α β : Type} {m : Recorder α} {d : Decoder α} {f : α → Recorder β} {g : α → Decoder β}

/-- Apart from its record, the recorder is the decoder. -/
def Follows (m : Recorder α) (d : Decoder α) : Prop := ∀ input, (m input).2 = d input

lemma Follows.pure (a : α) : Follows (pure a) (pure a) := fun _ => rfl

lemma follows_quietly (d : Decoder α) : Follows (quietly d) d := fun _ => rfl

lemma Follows.bind (hm : m.Follows d) (hf : ∀ a, (f a).Follows (g a)) :
    Follows (m >>= f) (d >>= g) := by
  intro input
  change _ = (d input >>= fun r => g r.1 r.2)
  rw [← hm input]
  cases hrun : m input with
  | mk acts result =>
    cases result with
    | error e =>
      rw [run_bind_of_error hrun]
      rfl
    | ok r =>
      rw [run_bind_of_ok hrun]
      exact hf r.1 r.2

lemma Follows.ite {p : Prop} [Decidable p] {m' : Recorder α} {d' : Decoder α}
    (hm : m.Follows d) (hm' : m'.Follows d') :
    Follows (if p then m else m') (if p then d else d') := by
  split
  · exact hm
  · exact hm'

lemma follows_count (what : Counted) (width : Nat) :
    Follows (count what width) (Decoder.count width) := by
  intro input
  unfold count
  cases Decoder.count width input <;> rfl

lemma Follows.times (hm : m.Follows d) (n : Nat) :
    Follows (Recorder.times m n) (Decoder.times d n) := by
  induction n with
  | zero => exact .pure []
  | succ n ih =>
    rw [Decoder.times_succ_eq_bind]
    exact hm.bind fun x => ih.bind fun xs => .pure (x :: xs)

lemma follows_text : Follows text Decoder.text := by
  refine (follows_count .bytes 1).bind fun n => (follows_quietly _).bind fun bytes => ?_
  cases Utf8.decode bytes with
  | error fault => exact follows_quietly _
  | ok cs => exact .pure _

lemma follows_atomOf (tag : UInt8) : Follows (atomOf tag) (Decoder.atomOf tag) := by
  unfold atomOf
  split
  · rename_i htag
    rw [Decoder.atomOf, if_pos htag]
    exact follows_text.bind fun s => .pure _
  · rename_i hsymbol
    split
    · rename_i htag
      rw [Decoder.atomOf, if_neg hsymbol, if_pos htag]
      exact follows_text.bind fun s => .pure _
    · exact follows_quietly _

lemma follows_atom : Follows atom Decoder.atom := (follows_quietly _).bind follows_atomOf

lemma follows_value : Follows value Decoder.value :=
  (follows_quietly _).bind fun tag => .ite
    ((follows_count .atoms 1).bind fun n => (follows_atom.times n).bind fun _ => .pure _)
    ((follows_atomOf tag).bind fun _ => .pure _)

lemma follows_module : Follows module Decoder.module :=
  follows_text.bind fun _ => (follows_count .imports 4).bind fun n =>
    (follows_text.times n).bind fun _ => .pure _

lemma follows_comment : Follows comment Decoder.comment :=
  (follows_quietly _).bind fun _ => .ite (.pure _) (follows_text.bind fun _ => .pure _)

lemma follows_build (rows columns : Nat) (r : TableRecord) :
    Follows (build rows columns r)
      (Decoder.ofExcept (Table.buildWith r.parts r.columnBuckets r.rowBuckets)) := fun _ => rfl

/-- A table is built right behind its record. -/
theorem follows_table (names : List String) : Follows (table names) (do
    let r ← Decoder.table names
    Decoder.ofExcept (Table.buildWith r.parts r.columnBuckets r.rowBuckets)) := by
  simp only [Decoder.table, bind_assoc]
  refine (follows_quietly _).bind fun ordinal => ?_
  cases names[ordinal]? with
  | none => exact follows_quietly _
  | some owner =>
    simp only [bind_assoc]
    refine follows_text.bind fun name => follows_comment.bind fun comment =>
      (follows_quietly _).bind fun autoKeys => (follows_count .columns 1).bind fun columnCount =>
      (follows_quietly _).bind fun rowCount => (follows_quietly _).bind fun columnBuckets =>
      (follows_quietly _).bind fun rowBuckets => ?_
    split
    · exact follows_quietly _
    · rw [bind_assoc]
      refine (follows_quietly _).bind fun rest => ?_
      split
      · exact follows_quietly _
      · simp only [bind_assoc, pure_bind]
        exact (follows_quietly _).bind fun _ => (follows_quietly _).bind fun _ =>
          (follows_atom.times columnCount).bind fun columns =>
          (follows_value.times (rowCount * columnCount)).bind fun cells =>
          follows_build rowCount columnCount _

lemma follows_tables (names : List String) (n : Nat) (c : Catalog) :
    Follows (tables names n c) (Decoder.tables names n c) := by
  induction n generalizing c with
  | zero => exact .pure c
  | succ n ih =>
    have htable := (follows_table names).bind fun t =>
      (follows_quietly (Decoder.ofExcept (c.install t))).bind fun p => ih p.1
    rwa [bind_assoc] at htable

theorem follows_catalog : Follows catalog Payload.catalog :=
  follows_text.bind fun _ => (follows_count .modules 4).bind fun moduleCount =>
    (follows_module.times moduleCount).bind fun _ => (follows_quietly _).bind fun c =>
    (follows_count .tables 4).bind fun tableCount => (follows_tables _ tableCount c).bind fun _ =>
    (follows_quietly _).bind fun _ => .ite (follows_quietly _) (follows_quietly _)

end Follows

end Recorder

end KeyedTables.Payload
