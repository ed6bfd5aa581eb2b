import KeyedTables.Proofs.Evaluation.Finding
import KeyedTables.Proofs.Evaluation.InStep
import KeyedTables.Proofs.Table.Build

/-!
# Frames of the binders in scope

An expression refers to the frames of queries by their depth. While the frames in progress are those
of the binders in scope, in the same order, every reference leads to a frame at a row, and to a
column of its table if the table is known or has the column. Queries add a binder and a frame at the
same time, so their tests and actions are evaluated with the frames of the scope they stand in.
-/
namespace KeyedTables

/-- A frame of a query with a binder: its table is the known one, and it is at a row. -/
structure Binder.Matches (b : Binder) (f : Frame) : Prop where
  op : f.op = b.op
  rowVariable : f.rowVariable = b.rowVariable
  table {t : Table} : b.table = some t → f.table.table = t
  row : f.row < f.table.table.rowCount

/-- The frames in progress are those of the scope, and are over the given tables. -/
structure Scope.Live (scope : Scope) (tables : List Installed) (env : Environment) : Prop where
  matches_frames : List.Forall₂ Binder.Matches scope env.frames
  tables_eq : env.frames.map Frame.table = tables

/-- The binder of a name and the frame of this name are found at the same depth. -/
theorem Scope.find?_eq_some {scope : Scope} {frames : List Frame}
    (h : List.Forall₂ Binder.Matches scope frames) {name : String} {depth : Nat} {b : Binder}
    (hb : scope.find? name = some (depth, b)) :
    ∃ f, frames[depth]? = some f ∧ frames.find? (·.rowVariable = name) = some f ∧
      b.Matches f := by
  induction h generalizing depth with
  | nil => cases hb
  | @cons b' f' scope frames hm _ ih =>
    rw [Scope.find?] at hb
    split at hb
    · rename_i hn
      cases hb
      refine ⟨f', rfl, ?_, hm⟩
      rw [List.find?_cons_of_pos (by simpa [hm.rowVariable] using hn)]
    · rename_i hn
      obtain ⟨⟨d, b₀⟩, hd, he⟩ := Option.map_eq_some_iff.1 hb
      cases he
      obtain ⟨f, hf, hfind, hmatch⟩ := ih hd
      refine ⟨f, hf, ?_, hmatch⟩
      rw [List.find?_cons_of_neg (by simpa [hm.rowVariable] using hn)]
      exact hfind

theorem Scope.find?_eq_none {scope : Scope} {frames : List Frame}
    (h : List.Forall₂ Binder.Matches scope frames) {name : String}
    (hb : scope.find? name = none) : frames.find? (·.rowVariable = name) = none := by
  induction h with
  | nil => rfl
  | @cons b' f' scope frames hm _ ih =>
    rw [Scope.find?] at hb
    split at hb
    · cases hb
    · rename_i hn
      rw [List.find?_cons_of_neg (by simpa [hm.rowVariable] using hn)]
      exact ih (Option.map_eq_none_iff.1 hb)

/-- A binder in scope has its frame at the same depth. -/
theorem Scope.exists_matches {scope : Scope} {frames : List Frame}
    (h : List.Forall₂ Binder.Matches scope frames) {depth : Nat} {b : Binder}
    (hb : scope[depth]? = some b) : ∃ f, frames[depth]? = some f ∧ b.Matches f := by
  induction h generalizing depth with
  | nil => cases hb
  | @cons b' f' scope frames hm _ ih =>
    cases depth with
    | zero =>
      cases hb
      exact ⟨f', rfl, hm⟩
    | succ depth => exact ih hb

namespace Scope.Live
variable {scope : Scope} {tables : List Installed} {env env' : Environment}

lemma congr (h : scope.Live tables env) (hf : env'.frames = env.frames) :
    scope.Live tables env' := by
  refine ⟨?_, ?_⟩
  · rw [hf]
    exact h.matches_frames
  · rw [hf]
    exact h.tables_eq

lemma abortInnermost (h : scope.Live tables env) : scope.Live tables env.abortInnermost := by
  obtain ⟨hm, ht⟩ := h
  unfold Environment.abortInnermost
  cases hf : env.frames with
  | nil => exact ⟨hm, ht⟩
  | cons f frames =>
    rw [hf] at hm ht
    cases hm with
    | cons hb hrest => exact ⟨.cons ⟨hb.op, hb.rowVariable, hb.table, hb.row⟩ hrest, ht⟩

lemma visit {t : Installed} (h : scope.Live (t :: tables) env) {row : Nat}
    (hrow : row < t.table.rowCount) : scope.Live (t :: tables) (env.visit row) := by
  obtain ⟨hm, ht⟩ := h
  unfold Environment.visit
  cases hf : env.frames with
  | nil => exact ⟨hm, ht⟩
  | cons f frames =>
    rw [hf] at hm ht
    cases hm with
    | cons hb hrest =>
      refine ⟨.cons ⟨hb.op, hb.rowVariable, hb.table, ?_⟩ hrest, ht⟩
      rw [(List.cons.inj ht).1]
      exact hrow

lemma pushFrame (h : scope.Live tables env) {b : Binder} {f : Frame} (hb : b.Matches f) :
    Scope.Live (b :: scope) (f.table :: tables) (env.pushFrame f) := by
  refine ⟨.cons hb h.matches_frames, ?_⟩
  rw [← h.tables_eq]
  rfl

lemma popFrame {b : Binder} {t : Installed} (h : Scope.Live (b :: scope) (t :: tables) env) :
    scope.Live tables env.popFrame := by
  obtain ⟨hm, ht⟩ := h
  unfold Environment.popFrame
  cases hf : env.frames with
  | nil =>
    rw [hf] at ht
    cases ht
  | cons f frames =>
    rw [hf] at hm ht
    cases hm with
    | cons _ hrest => exact ⟨hrest, (List.cons.inj ht).2⟩

/-- Outside of queries there are no frames. -/
theorem of_no_frames (h : env.frames = []) : Scope.Live [] [] env := by
  constructor
  · rw [h]
    exact .nil
  · rw [h]
    rfl

/-- Frames stay those of the scope, whatever is promised of errors that are not ordinary. -/
theorem steady {P : Promise} (hP : P.Lax) (scope : Scope) (tables : List Installed) :
    Steady P (scope.Live tables) where
  moment _ := hP.moment _
  ordinary he := fun _ _ => hP.ordinary he
  write h _ _ hf := h.congr hf
  abort h := h.abortInnermost
  remove h _ := h.congr rfl

end Scope.Live

section References
variable {scope : Scope} {tables : List Installed} {env : Environment} {f : Frame} {depth : Nat}
  {b : Binder}

/-- An ordinal that is stored, if any, is the one that the column has in the table of the frame. -/
theorem columnOrdinal_eq_ok {name : String} {ordinal : Option Nat} {col : Nat}
    (hstored : ∀ i, ordinal = some i → f.table.table.columnOrdinal? (.symbol name) = some i)
    (hcol : f.table.table.columnOrdinal? (.symbol name) = some col) :
    Query.columnOrdinal f (.symbol name) ordinal = .ok col := by
  cases ordinal with
  | some i =>
    rw [hstored i rfl] at hcol
    cases hcol
    rfl
  | none =>
    have hcol' : f.table.table.columnOrdinal? (.atom (.symbol name)) = some col := hcol
    rw [Query.columnOrdinal, hcol']

/-- No ordinal is stored for a column that the table of the frame does not have. -/
theorem columnOrdinal_eq_error {name : String} {ordinal : Option Nat}
    (hstored : ∀ i, ordinal = some i → f.table.table.columnOrdinal? (.symbol name) = some i)
    (hcol : f.table.table.columnOrdinal? (.symbol name) = none) :
    Query.columnOrdinal f (.symbol name) ordinal =
      .error (.unknownColumn f.op f.rowVariable name f.table.table.name) := by
  cases ordinal with
  | some i =>
    rw [hstored i rfl] at hcol
    cases hcol
  | none =>
    have hcol' : f.table.table.columnOrdinal? (.atom (.symbol name)) = none := hcol
    rw [Query.columnOrdinal, hcol', Atom.text, Atom.chars, String.ofList_toList]

theorem Scope.Live.run_rowKey (h : scope.Live tables env) (hb : scope[depth]? = some b) :
    ∃ v, (Query.rowKey depth).run env = .ok v env := by
  obtain ⟨f, hf, hm⟩ := Scope.exists_matches h.matches_frames hb
  obtain ⟨v, hv⟩ := Option.isSome_iff_exists.1 (Table.isSome_rowKey? hm.row)
  exact ⟨v, Query.run_rowKey hf hv⟩

/-- A reference to a column reads a cell, unless the column was looked for by key and is not
there. -/
theorem run_column_cases (hf : env.frames[depth]? = some f) (hm : b.Matches f) {name : String}
    {ordinal : Option Nat}
    (hordinal : ∀ i, ordinal = some i →
      ∃ t, b.table = some t ∧ t.columnOrdinal? (.symbol name) = some i) :
    (∃ col v, f.table.table.columnOrdinal? (.symbol name) = some col ∧
        f.table.table.cell? f.row col = some v ∧
          (Query.column depth (.symbol name) ordinal).run env = .ok v env) ∨
      (ordinal = none ∧ f.table.table.columnOrdinal? (.symbol name) = none ∧
        (Query.column depth (.symbol name) ordinal).run env =
          .error (.unknownColumn f.op f.rowVariable name f.table.table.name) env) := by
  have hstored : ∀ i, ordinal = some i →
      f.table.table.columnOrdinal? (.symbol name) = some i := by
    intro i hi
    obtain ⟨t, ht, hcol⟩ := hordinal i hi
    rw [hm.table ht]
    exact hcol
  cases hcol : f.table.table.columnOrdinal? (.symbol name) with
  | none =>
    have hnone : ordinal = none := by
      cases ordinal with
      | none => rfl
      | some i =>
        rw [hstored i rfl] at hcol
        cases hcol
    exact Or.inr ⟨hnone, rfl,
      Query.run_column_of_error hf (columnOrdinal_eq_error hstored hcol)⟩
  | some col =>
    obtain ⟨v, hv⟩ := Option.isSome_iff_exists.1 <|
      (Table.isSome_cell?_iff f.table.table f.row col).2 ⟨hm.row, Table.lt_of_columnOrdinal? hcol⟩
    exact Or.inl ⟨col, v, rfl, hv, Query.run_column hf (columnOrdinal_eq_ok hstored hcol) hv⟩

end References

section Queries
variable {P : Promise} {scope : Scope} {tables : List Installed} {b : Binder}

/-- The row that the innermost query is at has a key. -/
theorem Scope.Live.currentRow (hP : P.Lax) :
    InStep.Throughout P (Scope.Live (b :: scope) tables) Value (Query.rowKey 0)
      (Query.rowKey 0) := by
  intro env h
  have hinnermost : (b :: scope)[0]? = some b := rfl
  obtain ⟨v, hrun⟩ := h.run_rowKey hinnermost
  exact .of_run_eq_ok hP h hrun hrun

/-- Queries are in step whose parts are, table and key in the scope of the query, and test and
action in the scope with its binder. -/
theorem Scope.Live.query (hP : P.Lax) {target target' : Action Installed}
    {key key' : Option (Action Value)} {body body' : Query.Body}
    (htarget : InStep.Throughout P (scope.Live tables) Installed target target')
    (hknown : ∀ {env t env'}, target.run env = .ok t env' →
      ∀ {table}, b.table = some table → t.table = table)
    (hkey : Option.Rel (InStep.Throughout P (scope.Live tables) Value) key key')
    (hgiven : (b.op = .doForThisRow → key.isSome = true) ∨ Lenient (P.Allows (scope.Live tables)))
    (htest : ∀ t, InStep.Throughout P (Scope.Live (b :: scope) (t :: tables)) Value body.test
      body'.test)
    (haction : ∀ t, InStep.Throughout P (Scope.Live (b :: scope) (t :: tables)) Value body.action
      body'.action) :
    InStep.Throughout P (scope.Live tables) Value (Query.run b.op b.rowVariable target key body)
      (Query.run b.op b.rowVariable target' key' body') := by
  refine InStep.query (Scope.Live.steady hP scope tables)
    (fun t => Scope.Live.steady hP (b :: scope) (t :: tables)) htarget hkey hgiven ?_
    (fun _ _ _ hrow hs => hs.visit hrow) (fun _ _ hs => hs.popFrame)
    (fun _ => Scope.Live.currentRow hP) htest haction
  intro env t env₁ start env₂ _ ht _ _ h₂
  refine ⟨hP.moment _, fun hrow => ?_⟩
  have hmatch : b.Matches ⟨b.op, b.rowVariable, t, start, false⟩ := ⟨rfl, rfl, hknown ht, hrow⟩
  exact h₂.pushFrame hmatch

end Queries

end KeyedTables
