import KeyedTables.Proofs.Table.Build

/-!
# Access through the indices

The indices of a table hold its columns and its row keys, each under its own ordinal. So looking up
by key comes to the same as going through the columns, or through the first cells of the rows, until
the key is found; and all ways to a cell lead to the same place among the cells.
-/
namespace KeyedTables

namespace Table
open LawfulKey

section Enumerated
variable {κ : Type} [Key κ] [LawfulKey κ] {keyAt : Nat → Option κ} {keys : List (κ × Nat)}
  {index : Index} {v : Value} {ordinal : Nat}
  (hholds : index.Holds (keys.map entryOf)) (hnodup : (keys.map Prod.fst).Nodup)
  (hkeys : ∀ key ordinal, (key, ordinal) ∈ keys ↔ keyAt ordinal = some key)
include hholds hnodup hkeys

/-- An index of distinct keys finds the place of a key. -/
theorem find?_eq_some_iff :
    index.find? keyAt v = some ordinal ↔ ∃ key, keyAt ordinal = some key ∧ probe key = v := by
  constructor
  · intro hf
    obtain ⟨key, hkey, hmatch⟩ := Index.keyAt_of_find? hf
    exact ⟨key, hkey, (isMatch_iff key v).1 hmatch⟩
  · rintro ⟨key, hkey, rfl⟩
    have hmem : (key, ordinal) ∈ keys := (hkeys key ordinal).2 hkey
    cases hf : index.find? keyAt (probe key) with
    | none =>
      have hno := Index.find?_eq_none hholds hf (List.mem_map_of_mem hmem) rfl hkey
      rw [(isMatch_iff key _).2 rfl] at hno
      cases hno
    | some found =>
      obtain ⟨key', hkey', hmatch⟩ := Index.keyAt_of_find? hf
      have heq : key' = key := probe_injective ((isMatch_iff key' _).1 hmatch)
      subst heq
      have hmem' : (key', found) ∈ keys := (hkeys key' found).2 hkey'
      exact congrArg (some ∘ Prod.snd) (List.inj_on_of_nodup_map hnodup hmem' hmem rfl)

end Enumerated

namespace Parts
variable {p : Parts}

lemma mem_zipIdx_columns_iff (a : Atom) (col : Nat) :
    (a, col) ∈ p.columns.zipIdx ↔ p.column? col = some a := List.mk_mem_zipIdx_iff_getElem?

lemma mem_rowKeys_iff (h : p.cells.size = p.rowCount * p.columnCount) (key : Value) (row : Nat) :
    (key, row) ∈ p.rowKeys ↔ p.rowKeyAt row = some key := by
  constructor
  · exact rowKeyAt_of_mem_rowKeys
  · intro hkey
    have hrow : row < p.rowCount := by
      rw [← rowKeyAt_isSome_iff h, hkey]
      rfl
    refine List.mem_filterMap.2 ⟨row, List.mem_range.2 hrow, ?_⟩
    rw [hkey, Option.map_some]

end Parts

variable {t : Table} {key : Value}

lemma columnOrdinal?_eq_some_iff {col : Nat} :
    t.columnOrdinal? key = some col ↔ ∃ a, t.columns[col]? = some a ∧ key = .atom a := by
  obtain ⟨_, _, h⟩ := t.indexed
  have hnodup : (t.columns.zipIdx.map Prod.fst).Nodup := by
    rw [List.zipIdx_map_fst]
    exact t.keyed.nodup_columns
  have hfind : t.columnOrdinal? key = some col ↔ ∃ a, t.columns[col]? = some a ∧ .atom a = key :=
    find?_eq_some_iff (Parts.holds_of_indices h).1 hnodup Parts.mem_zipIdx_columns_iff
  simp only [hfind, eq_comm]

lemma columnOrdinal?_eq_none_iff :
    t.columnOrdinal? key = none ↔ ∀ a ∈ t.columns, key ≠ .atom a := by
  rw [Option.eq_none_iff_forall_ne_some]
  constructor
  · rintro hnone a ha rfl
    obtain ⟨col, hcol⟩ := List.mem_iff_getElem?.1 ha
    exact hnone col (columnOrdinal?_eq_some_iff.2 ⟨a, hcol, rfl⟩)
  · intro hno col hcol
    obtain ⟨a, ha, hkey⟩ := columnOrdinal?_eq_some_iff.1 hcol
    exact hno a (List.mem_of_getElem? ha) hkey

lemma columnOrdinal?_multifield (t : Table) (xs : List Atom) :
    t.columnOrdinal? (.multifield xs) = none := by
  rw [columnOrdinal?_eq_none_iff]
  intro a _ h
  cases h

lemma rowOrdinal?_eq_some_iff {row : Nat} :
    t.rowOrdinal? key = some row ↔
      row < t.rowCount ∧ t.cells[row * t.columnCount]? = some key := by
  obtain ⟨_, _, h⟩ := t.indexed
  have hfind : t.rowOrdinal? key = some row ↔
      ∃ key', t.toParts.rowKeyAt row = some key' ∧ key' = key :=
    find?_eq_some_iff (Parts.holds_of_indices h).2 t.keyed.nodup_rowKeys
      (Parts.mem_rowKeys_iff t.keyed.size_cells)
  constructor
  · intro hrow
    obtain ⟨key', hkey', rfl⟩ := hfind.1 hrow
    exact ⟨lt_of_rowOrdinal? hrow, hkey'⟩
  · rintro ⟨_, hkey⟩
    exact hfind.2 ⟨key, hkey, rfl⟩

lemma rowOrdinal?_eq_none_iff :
    t.rowOrdinal? key = none ↔ ∀ row < t.rowCount, t.cells[row * t.columnCount]? ≠ some key := by
  rw [Option.eq_none_iff_forall_ne_some]
  constructor
  · intro hnone row hrow hkey
    exact hnone row (rowOrdinal?_eq_some_iff.2 ⟨hrow, hkey⟩)
  · intro hno row hrow
    obtain ⟨hlt, hkey⟩ := rowOrdinal?_eq_some_iff.1 hrow
    exact hno row hlt hkey

variable {row col : Nat}

lemma cell?_eq_getElem? (hrow : row < t.rowCount) (hcol : col < t.columnCount) :
    t.cell? row col = t.cells[row * t.columnCount + col]? := if_pos ⟨hrow, hcol⟩

/-- A row fits into the cells exactly if it is a row of the table. -/
theorem row_fits_iff : 0 < t.columnCount ∧ row * t.columnCount + t.columnCount ≤ t.cells.size ↔
    row < t.rowCount := by
  rw [t.keyed.size_cells, ← Nat.succ_mul]
  constructor
  · rintro ⟨hpos, hle⟩
    exact Nat.le_of_mul_le_mul_right hle hpos
  · intro hrow
    exact ⟨Parts.columnCount_pos_of_rowCount_pos (by omega), Nat.mul_le_mul_right _ hrow⟩

lemma row?_eq_none_iff : t.row? row = none ↔ t.rowCount ≤ row := by
  rw [row?, ite_eq_right_iff, row_fits_iff]
  simp

/-- A row is the cells from where it begins to where the next one does. -/
theorem row?_of_lt (hrow : row < t.rowCount) :
    ∃ cells, t.row? row = some cells ∧ cells.length = t.columnCount ∧
      ∀ col < t.columnCount, cells[col]? = t.cells[row * t.columnCount + col]? := by
  have hfits := row_fits_iff.2 hrow
  refine ⟨_, if_pos hfits, ?_, fun col hcol => ?_⟩
  · rw [Array.length_toList, Array.size_extract, Nat.min_eq_left hfits.2, Nat.add_sub_cancel_left]
  · rw [Array.getElem?_toList, Array.getElem?_extract, Nat.min_eq_left hfits.2, if_pos]
    omega

lemma cell?_eq_getElem?_of_row? {cells : List Value} (h : t.row? row = some cells) (col : Nat) :
    t.cell? row col = cells[col]? := by
  have hrow : row < t.rowCount := by
    rw [← Nat.not_le, ← row?_eq_none_iff, h]
    exact fun hnone => by cases hnone
  obtain ⟨cells', hrow', hlength, hcells⟩ := row?_of_lt hrow
  rw [h, Option.some.injEq] at hrow'
  subst hrow'
  by_cases hcol : col < t.columnCount
  · rw [cell?_eq_getElem? hrow hcol, hcells col hcol]
  · rw [cell?, if_neg fun hboth => hcol hboth.2, List.getElem?_eq_none (by omega)]

variable {rowKey columnKey : Value}

lemma lookup_of_no_row (h : t.rowOrdinal? rowKey = none) :
    t.lookup rowKey columnKey = .error (.noRowForKey t.name rowKey) := by
  rw [lookup, h]

lemma lookup_of_no_column (hrow : t.rowOrdinal? rowKey = some row)
    (hcol : t.columnOrdinal? columnKey = none) :
    t.lookup rowKey columnKey = .error (.noColumnForKey t.name columnKey) := by
  rw [lookup, hrow, hcol]

/-- Where both keys are found there is a cell, so its absence is never reported. -/
theorem lookup_of_found (hrow : t.rowOrdinal? rowKey = some row)
    (hcol : t.columnOrdinal? columnKey = some col) :
    ∃ v, t.cells[row * t.columnCount + col]? = some v ∧ t.lookup rowKey columnKey = .ok v := by
  have hlt := lt_of_rowOrdinal? hrow
  have hlt' := lt_of_columnOrdinal? hcol
  obtain ⟨v, hv⟩ := Option.isSome_iff_exists.1 ((isSome_cell?_iff t row col).2 ⟨hlt, hlt'⟩)
  refine ⟨v, ?_, ?_⟩
  · rw [← cell?_eq_getElem? hlt hlt', hv]
  · rw [lookup, hrow, hcol]
    dsimp only
    rw [hv]

/-- A row is reported as missing exactly if its key is not found. -/
theorem lookup_eq_noRow_iff :
    t.lookup rowKey columnKey = .error (.noRowForKey t.name rowKey) ↔
      t.rowOrdinal? rowKey = none := by
  refine ⟨fun herr => ?_, lookup_of_no_row⟩
  cases hrow : t.rowOrdinal? rowKey with
  | none => rfl
  | some row =>
    cases hcol : t.columnOrdinal? columnKey with
    | none =>
      rw [lookup_of_no_column hrow hcol] at herr
      cases herr
    | some col =>
      obtain ⟨v, _, hv⟩ := lookup_of_found hrow hcol
      rw [hv] at herr
      cases herr

/-- A column is reported as missing only if the row was found. -/
theorem lookup_eq_noColumn_iff :
    t.lookup rowKey columnKey = .error (.noColumnForKey t.name columnKey) ↔
      (∃ row, t.rowOrdinal? rowKey = some row) ∧ t.columnOrdinal? columnKey = none := by
  refine ⟨fun herr => ?_, fun ⟨⟨row, hrow⟩, hcol⟩ => lookup_of_no_column hrow hcol⟩
  cases hrow : t.rowOrdinal? rowKey with
  | none =>
    rw [lookup_of_no_row hrow] at herr
    cases herr
  | some row =>
    cases hcol : t.columnOrdinal? columnKey with
    | none => exact ⟨⟨row, rfl⟩, rfl⟩
    | some col =>
      obtain ⟨v, _, hv⟩ := lookup_of_found hrow hcol
      rw [hv] at herr
      cases herr

/-- A table is accessed as if there were no indices: the ordinal of a key is the place at which a
search through the row keys or the columns finds it, the cell at two keys is the one at their
ordinals, and a row, its cells and its key are read from one place. -/
theorem access_eq_search (t : Table) (k c : Value) :
    (∀ i, t.rowOrdinal? k = some i ↔ i < t.rowCount ∧ t.cells[i * t.columnCount]? = some k) ∧
      (t.rowOrdinal? k = none ↔ ∀ i < t.rowCount, t.cells[i * t.columnCount]? ≠ some k) ∧
      (∀ j, t.columnOrdinal? c = some j ↔
        j < t.columnCount ∧ ∃ a, t.columns[j]? = some a ∧ c = .atom a) ∧
      (t.columnOrdinal? c = none ↔ ∀ a ∈ t.columns, c ≠ .atom a) ∧
      (∀ xs, t.columnOrdinal? (.multifield xs) = none) ∧
      (t.containsKey k = true ↔ ∃ i, t.rowOrdinal? k = some i) ∧
      (∀ i j, t.rowOrdinal? k = some i → t.columnOrdinal? c = some j →
        ∃ v, t.cells[i * t.columnCount + j]? = some v ∧ t.lookup k c = .ok v) ∧
      (t.lookup k c = .error (.noRowForKey t.name k) ↔ t.rowOrdinal? k = none) ∧
      (t.lookup k c = .error (.noColumnForKey t.name c) ↔
        (∃ i, t.rowOrdinal? k = some i) ∧ t.columnOrdinal? c = none) ∧
      (∀ i < t.rowCount, ∃ cells, t.row? i = some cells ∧ cells.length = t.columnCount ∧
        (∀ j < t.columnCount, cells[j]? = t.cells[i * t.columnCount + j]?) ∧
        (∀ j, t.cell? i j = cells[j]?) ∧ t.rowKey? i = cells.head?) ∧
      ∀ i, t.rowCount ≤ i →
        t.row? i = none ∧ (∀ j, t.cell? i j = none) ∧ t.rowKey? i = none := by
  refine ⟨fun i => rowOrdinal?_eq_some_iff, rowOrdinal?_eq_none_iff, fun j => ?_,
    columnOrdinal?_eq_none_iff, columnOrdinal?_multifield t, Option.isSome_iff_exists,
    fun i j => lookup_of_found, lookup_eq_noRow_iff, lookup_eq_noColumn_iff, fun i hi => ?_,
    fun i hi => ?_⟩
  · constructor
    · intro hj
      exact ⟨lt_of_columnOrdinal? hj, columnOrdinal?_eq_some_iff.1 hj⟩
    · rintro ⟨_, hj⟩
      exact columnOrdinal?_eq_some_iff.2 hj
  · obtain ⟨cells, hrow, hlength, hcells⟩ := row?_of_lt hi
    refine ⟨cells, hrow, hlength, hcells, cell?_eq_getElem?_of_row? hrow, ?_⟩
    rw [rowKey?, cell?_eq_getElem?_of_row? hrow, List.head?_eq_getElem?]
  · have hnone : ∀ j, t.cell? i j = none := fun j => if_neg fun h => Nat.not_lt.2 hi h.1
    exact ⟨row?_eq_none_iff.2 hi, hnone, hnone 0⟩

end Table

end KeyedTables
