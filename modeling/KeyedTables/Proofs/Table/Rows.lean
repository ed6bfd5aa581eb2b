import KeyedTables.Proofs.Table.Build

/-!
# Cells by rows

The cells of a table, one behind the other, are its rows laid end to end. So a row and its key are
found at the place of the row in the list of rows, and a table can be built exactly if the rows
begin with distinct values.
-/
namespace KeyedTables.Table

section Chunks
variable {α : Type} {n : Nat} {rows : List (List α)}

lemma length_flatten_of_width (h : ∀ row ∈ rows, row.length = n) :
    rows.flatten.length = rows.length * n := by
  rw [List.length_flatten, List.map_congr_left h, List.map_const', List.sum_replicate_nat]

/-- Behind `i` rows of the same width the row at `i` begins. -/
theorem drop_flatten_of_width (h : ∀ row ∈ rows, row.length = n) (i : Nat) :
    rows.flatten.drop (i * n) = (rows.drop i).flatten := by
  induction rows generalizing i with
  | nil => simp
  | cons row rows ih =>
    cases i with
    | zero => simp
    | succ i =>
      have hrow : row.length = n := h row List.mem_cons_self
      have hwidth : (i + 1) * n = row.length + i * n := by rw [hrow, Nat.succ_mul, Nat.add_comm]
      rw [List.flatten_cons, hwidth, List.drop_length_add_append, List.drop_succ_cons,
        ih (fun r hr => h r (List.mem_cons_of_mem row hr))]

lemma take_drop_flatten_of_width (h : ∀ row ∈ rows, row.length = n) {i : Nat}
    (hi : i < rows.length) : (rows.flatten.drop (i * n)).take n = rows[i] := by
  rw [drop_flatten_of_width h, List.drop_eq_getElem_cons hi, List.flatten_cons,
    List.take_left' (h _ (List.getElem_mem hi))]

end Chunks

namespace Parts

/-- The cells are those of rows that are as wide as there are columns. -/
structure Consists (p : Parts) (rows : List (List Value)) : Prop where
  cells : p.cells.toList = rows.flatten
  width : ∀ row ∈ rows, row.length = p.columnCount
  columns_ne_nil : p.columns ≠ []

namespace Consists
variable {p : Parts} {rows : List (List Value)} (h : p.Consists rows)
include h

lemma columnCount_pos : 0 < p.columnCount := List.length_pos_iff.2 h.columns_ne_nil

lemma ne_nil {row : List Value} (hrow : row ∈ rows) : row ≠ [] := by
  rw [← List.length_pos_iff, h.width row hrow]
  exact h.columnCount_pos

lemma size_cells : p.cells.size = rows.length * p.columnCount := by
  rw [← Array.length_toList, h.cells, length_flatten_of_width h.width]

lemma rowCount_eq : p.rowCount = rows.length := by
  rw [rowCount, h.size_cells, Nat.mul_div_cancel _ h.columnCount_pos]

lemma rowKeyAt_eq {row : Nat} (hrow : row < rows.length) : p.rowKeyAt row = rows[row].head? := by
  rw [rowKeyAt, ← Array.getElem?_toList, h.cells, ← take_drop_flatten_of_width h.width hrow,
    List.head?_take, if_neg (Nat.ne_of_gt h.columnCount_pos), List.head?_drop]

/-- The row keys are what the rows begin with. -/
theorem map_rowKeys : (p.rowKeys.map Prod.fst).map some = rows.map List.head? := by
  have hsize : p.cells.size = p.rowCount * p.columnCount := by rw [h.size_cells, h.rowCount_eq]
  apply List.ext_getElem?
  intro i
  rw [List.getElem?_map, getElem?_map_rowKeys hsize, List.getElem?_map]
  by_cases hi : i < rows.length
  · rw [h.rowKeyAt_eq hi, List.getElem?_eq_getElem hi, Option.map_some,
      List.head?_eq_some_head (h.ne_nil (List.getElem_mem hi)), Option.map_some]
  · have hnone : p.rowKeyAt i = none := by
      rw [← Option.not_isSome_iff_eq_none, rowKeyAt_isSome_iff hsize, h.rowCount_eq]
      exact hi
    rw [hnone, List.getElem?_eq_none (by omega), Option.map_none, Option.map_none]

theorem keyed_iff : p.Keyed ↔ p.columns.Nodup ∧ (rows.map List.head?).Nodup := by
  have hkeys : (p.rowKeys.map Prod.fst).Nodup ↔ (rows.map List.head?).Nodup := by
    rw [← h.map_rowKeys, List.nodup_map_iff fun _ _ => Option.some.inj]
  constructor
  · intro hp
    exact ⟨hp.nodup_columns, hkeys.1 hp.nodup_rowKeys⟩
  · rintro ⟨hc, hr⟩
    refine ⟨?_, hc, hkeys.2 hr⟩
    rw [h.size_cells, h.rowCount_eq]

end Consists

end Parts

lemma row?_of_consists {t : Table} {rows : List (List Value)} (h : t.toParts.Consists rows)
    {row : Nat} (hrow : row < rows.length) : t.row? row = some rows[row] := by
  have hle : row * t.columnCount + t.columnCount ≤ t.cells.size := by
    rw [h.size_cells, ← Nat.succ_mul]
    exact Nat.mul_le_mul_right _ hrow
  have hextract : (t.cells.extract (row * t.columnCount)
      (row * t.columnCount + t.columnCount)).toList = rows[row] := by
    rw [Array.toList_extract, List.extract_eq_take_drop, Nat.add_sub_cancel_left, h.cells]
    exact take_drop_flatten_of_width h.width hrow
  rw [row?, if_pos ⟨h.columnCount_pos, hle⟩, hextract]

/-- The rows of a table are those that its cells were made of. -/
theorem filterMap_row?_of_consists {t : Table} {rows : List (List Value)}
    (h : t.toParts.Consists rows) : (List.range t.rowCount).filterMap t.row? = rows := by
  have hsome : ∀ row ∈ List.range t.rowCount, t.row? row = some (rows[row]?.getD []) := by
    intro row hrow
    rw [List.mem_range, h.rowCount_eq] at hrow
    rw [row?_of_consists h hrow, List.getElem?_eq_getElem hrow, Option.getD_some]
  rw [List.filterMap_congr hsome, h.rowCount_eq]
  apply List.ext_getElem
  · simp
  · intro i _ hi
    simp [hi]

end KeyedTables.Table
