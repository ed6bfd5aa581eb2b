import KeyedTables.Proofs.Table.Index

/-!
# Tables that can be built

A table is built from its parts exactly when the cells fill whole rows and neither two columns nor
two row keys are equal; the numbers of buckets have no part in it. So every table has a cell at each
row and column, and the ordinals found in it are those of its rows and columns.
-/
namespace KeyedTables.Table
open LawfulKey

namespace Parts
variable {p : Parts}

/-- The cells fill whole rows, and columns and row keys are distinct. -/
structure Keyed (p : Parts) : Prop where
  size_cells : p.cells.size = p.rowCount * p.columnCount
  nodup_columns : p.columns.Nodup
  nodup_rowKeys : (p.rowKeys.map Prod.fst).Nodup

theorem rowKeyAt_of_mem_rowKeys {k : Value × Nat} (h : k ∈ p.rowKeys) :
    p.rowKeyAt k.2 = some k.1 := by
  obtain ⟨row, _, hk⟩ := List.mem_filterMap.1 h
  obtain ⟨v, hv, rfl⟩ := Option.map_eq_some_iff.1 hk
  exact hv

theorem column?_of_mem_zipIdx {k : Atom × Nat} (h : k ∈ p.columns.zipIdx) :
    p.column? k.2 = some k.1 := List.mk_mem_zipIdx_iff_getElem?.1 h

theorem columnCount_pos_of_rowCount_pos (h : 0 < p.rowCount) : 0 < p.columnCount := by
  rcases Nat.eq_zero_or_pos p.columnCount with hz | hp
  · rw [rowCount, hz, Nat.div_zero] at h
    omega
  · exact hp

lemma Keyed.lt_size (h : p.Keyed) {row col : Nat} (hrow : row < p.rowCount)
    (hcol : col < p.columnCount) : row * p.columnCount + col < p.cells.size := by
  have hle : (row + 1) * p.columnCount ≤ p.rowCount * p.columnCount := Nat.mul_le_mul_right _ hrow
  rw [Nat.add_mul, Nat.one_mul] at hle
  rw [h.size_cells]
  omega

/-- Where cells fill whole rows, there is a key at each row, and nowhere else. -/
theorem rowKeyAt_isSome_iff (h : p.cells.size = p.rowCount * p.columnCount) {row : Nat} :
    (p.rowKeyAt row).isSome ↔ row < p.rowCount := by
  rw [rowKeyAt, isSome_getElem?, h]
  constructor
  · exact Nat.lt_of_mul_lt_mul_right
  · intro hrow
    exact Nat.mul_lt_mul_of_pos_right hrow (columnCount_pos_of_rowCount_pos (by omega))

/-- The row keys stand where the rows begin. -/
theorem getElem?_map_rowKeys (h : p.cells.size = p.rowCount * p.columnCount) (i : Nat) :
    (p.rowKeys.map Prod.fst)[i]? = p.rowKeyAt i := by
  have hsome : ∀ row ∈ List.range p.rowCount,
      ((p.rowKeyAt row).map (·, row)).map (some ∘ Prod.fst) = some (p.rowKeyAt row) := by
    intro row hrow
    obtain ⟨v, hv⟩ :=
      Option.isSome_iff_exists.1 ((rowKeyAt_isSome_iff h).2 (List.mem_range.1 hrow))
    rw [hv]
    rfl
  have hmap : p.rowKeys.map (some ∘ Prod.fst) = (List.range p.rowCount).map p.rowKeyAt := by
    rw [rowKeys, List.map_filterMap, List.filterMap_congr hsome, List.filterMap_eq_map']
  have hget : (p.rowKeys.map Prod.fst)[i]?.map some =
      (List.range p.rowCount)[i]?.map p.rowKeyAt := by
    rw [← List.getElem?_map, ← List.getElem?_map, List.map_map, hmap]
  by_cases hi : i < p.rowCount
  · rw [List.getElem?_range hi, Option.map_some] at hget
    obtain ⟨v, hv, heq⟩ := Option.map_eq_some_iff.1 hget
    rw [hv, heq]
  · have hnone : p.rowKeyAt i = none := by
      rw [← Option.not_isSome_iff_eq_none, rowKeyAt_isSome_iff h]
      exact hi
    have hout : (List.range p.rowCount)[i]? = none := by simpa using hi
    rw [hout, Option.map_none, Option.map_eq_none_iff] at hget
    rw [hget, hnone]

lemma Keyed.length_rowKeys (h : p.Keyed) : p.rowKeys.length = p.rowCount := by
  have hsome : ∀ row ∈ List.range p.rowCount, ((p.rowKeyAt row).map (·, row)).isSome := by
    intro row hrow
    rw [Option.isSome_map]
    exact (rowKeyAt_isSome_iff h.size_cells).2 (List.mem_range.1 hrow)
  rw [rowKeys, List.length_filterMap_eq_countP, List.countP_eq_length.2 hsome, List.length_range]

/-- What is indexed to have the indices of parts. -/
theorem indices_eq_ok_iff {columnBuckets rowBuckets : Nat} {columnIndex rowIndex : Index} :
    p.indices columnBuckets rowBuckets = .ok (columnIndex, rowIndex) ↔
      p.cells.size = p.rowCount * p.columnCount ∧
      indexKeys probe p.column? p.columns.zipIdx (.withBuckets columnBuckets) = .ok columnIndex ∧
      indexKeys probe p.rowKeyAt p.rowKeys (.withBuckets rowBuckets) = .ok rowIndex := by
  have hatom : (probe : Atom → Value) = .atom := rfl
  have hvalue : (probe : Value → Value) = id := rfl
  rw [hatom, hvalue, indices]
  constructor
  · intro h
    split at h
    · cases h
    · rename_i hsize
      split at h
      · cases h
      · rename_i hcolumns
        split at h
        · cases h
        · rename_i hrows
          cases h
          exact ⟨by omega, hcolumns, hrows⟩
  · rintro ⟨hsize, hcolumns, hrows⟩
    rw [if_neg fun hne => hne hsize.symm, hcolumns]
    dsimp only
    rw [hrows]

/-- The indices of parts hold all columns and all row keys. -/
theorem holds_of_indices {columnBuckets rowBuckets : Nat} {columnIndex rowIndex : Index}
    (h : p.indices columnBuckets rowBuckets = .ok (columnIndex, rowIndex)) :
    columnIndex.Holds (p.columns.zipIdx.map entryOf) ∧ rowIndex.Holds (p.rowKeys.map entryOf) := by
  obtain ⟨_, hcolumns, hrows⟩ := indices_eq_ok_iff.1 h
  exact ⟨(indexKeys_eq_ok (fun _ => column?_of_mem_zipIdx) hcolumns).2.1,
    (indexKeys_eq_ok (fun _ => rowKeyAt_of_mem_rowKeys) hrows).2.1⟩

/-- Only keyed parts have indices, with a bucket at least where there are keys. -/
theorem keyed_of_indices {columnBuckets rowBuckets : Nat} {columnIndex rowIndex : Index}
    (h : p.indices columnBuckets rowBuckets = .ok (columnIndex, rowIndex)) :
    p.Keyed ∧ columnIndex.bucketCount = max columnBuckets (min p.columnCount 1) ∧
      rowIndex.bucketCount = max rowBuckets (min p.rowCount 1) := by
  obtain ⟨hsize, hcolumns, hrows⟩ := indices_eq_ok_iff.1 h
  obtain ⟨hnc, _, hcc⟩ := indexKeys_eq_ok (fun _ => column?_of_mem_zipIdx) hcolumns
  obtain ⟨hnr, _, hcr⟩ := indexKeys_eq_ok (fun _ => rowKeyAt_of_mem_rowKeys) hrows
  rw [List.zipIdx_map_fst] at hnc
  have hkeyed : p.Keyed := ⟨hsize, hnc, hnr⟩
  rw [List.length_zipIdx] at hcc
  rw [hkeyed.length_rowKeys] at hcr
  exact ⟨hkeyed, hcc, hcr⟩

/-- Keyed parts have indices with any numbers of buckets. -/
theorem Keyed.indices (h : p.Keyed) (columnBuckets rowBuckets : Nat) :
    ∃ r, p.indices columnBuckets rowBuckets = .ok r := by
  have hnc : (p.columns.zipIdx.map Prod.fst).Nodup := by
    rw [List.zipIdx_map_fst]
    exact h.nodup_columns
  obtain ⟨columnIndex, hcolumns⟩ :=
    exists_indexKeys (fun _ => column?_of_mem_zipIdx) hnc columnBuckets
  obtain ⟨rowIndex, hrows⟩ :=
    exists_indexKeys (fun _ => rowKeyAt_of_mem_rowKeys) h.nodup_rowKeys rowBuckets
  exact ⟨(columnIndex, rowIndex), indices_eq_ok_iff.2 ⟨h.size_cells, hcolumns, hrows⟩⟩

/-- The indices are the same again with the numbers of buckets that they have. -/
theorem indices_bucketCount {columnBuckets rowBuckets : Nat} {columnIndex rowIndex : Index}
    (h : p.indices columnBuckets rowBuckets = .ok (columnIndex, rowIndex)) :
    p.indices columnIndex.bucketCount rowIndex.bucketCount = .ok (columnIndex, rowIndex) := by
  obtain ⟨hsize, hcolumns, hrows⟩ := indices_eq_ok_iff.1 h
  exact indices_eq_ok_iff.2 ⟨hsize,
    indexKeys_bucketCount (fun _ => column?_of_mem_zipIdx) hcolumns,
    indexKeys_bucketCount (fun _ => rowKeyAt_of_mem_rowKeys) hrows⟩

end Parts

theorem keyed (t : Table) : t.toParts.Keyed := by
  obtain ⟨_, _, h⟩ := t.indexed
  exact (Parts.keyed_of_indices h).1

theorem buildWith_eq_ok {p : Parts} {columnBuckets rowBuckets : Nat} {t : Table}
    (h : buildWith p columnBuckets rowBuckets = .ok t) :
    t.toParts = p ∧ t.columnIndex.bucketCount = max columnBuckets (min p.columnCount 1) ∧
      t.rowIndex.bucketCount = max rowBuckets (min p.rowCount 1) := by
  unfold buildWith at h
  split at h
  · cases h
  · rename_i columnIndex rowIndex hi
    cases h
    exact ⟨rfl, (Parts.keyed_of_indices hi).2⟩

theorem exists_buildWith {p : Parts} (h : p.Keyed) (columnBuckets rowBuckets : Nat) :
    ∃ t, buildWith p columnBuckets rowBuckets = .ok t := by
  obtain ⟨r, hr⟩ := h.indices columnBuckets rowBuckets
  unfold buildWith
  split
  · rename_i hi
    rw [hr] at hi
    cases hi
  · exact ⟨_, rfl⟩

/-- A table is built again from its parts and its numbers of buckets. -/
theorem buildWith_self (t : Table) :
    buildWith t.toParts t.columnIndex.bucketCount t.rowIndex.bucketCount = .ok t := by
  obtain ⟨columnBuckets, rowBuckets, h⟩ := t.indexed
  have hsame := Parts.indices_bucketCount h
  unfold buildWith
  split
  · rename_i hi
    rw [hsame] at hi
    cases hi
  · rename_i hi
    rw [hsame] at hi
    cases hi
    rfl

lemma self_le_primeFrom (fuel n : Nat) : n ≤ primeFrom fuel n := by
  induction fuel generalizing n with
  | zero => exact Nat.le_refl n
  | succ fuel ih =>
    rw [primeFrom]
    split
    · exact Nat.le_refl n
    · exact Nat.le_of_succ_le (ih (n + 1))

/-- Where there are keys there are buckets. -/
theorem min_one_le_bucketCount (keys : Nat) : min keys 1 ≤ bucketCount keys := by
  unfold bucketCount
  split
  · exact Nat.min_le_left keys 1
  · have hprime := self_le_primeFrom (max ((keys * 5 + 3) / 4) 2) (max ((keys * 5 + 3) / 4) 2)
    unfold nextPrime
    omega

/-- What is built from parts are these parts, indexed with as many buckets as their keys call for. -/
theorem build_eq_ok_iff {p : Parts} {t : Table} :
    build p = .ok t ↔ t.toParts = p ∧
      t.columnIndex.bucketCount = bucketCount t.columnCount ∧
      t.rowIndex.bucketCount = bucketCount t.rowCount := by
  constructor
  · intro h
    obtain ⟨rfl, hc, hr⟩ := buildWith_eq_ok h
    rw [Nat.max_eq_left (min_one_le_bucketCount _)] at hc hr
    exact ⟨rfl, hc, hr⟩
  · rintro ⟨rfl, hc, hr⟩
    rw [build, ← hc, ← hr, buildWith_self]

variable {t : Table}

/-- There is a cell at each row and column, and nowhere else. -/
theorem isSome_cell?_iff (t : Table) (row col : Nat) :
    (t.cell? row col).isSome ↔ row < t.rowCount ∧ col < t.columnCount := by
  unfold cell?
  by_cases h : row < t.rowCount ∧ col < t.columnCount
  · rw [if_pos h, isSome_getElem?]
    exact ⟨fun _ => h, fun _ => t.keyed.lt_size h.1 h.2⟩
  · rw [if_neg h]
    exact ⟨fun hs => (by cases hs), fun hs => absurd hs h⟩

lemma rowKey?_eq_rowKeyAt {row : Nat} (h : row < t.rowCount) :
    t.rowKey? row = t.toParts.rowKeyAt row := by
  rw [rowKey?, cell?, if_pos ⟨h, Parts.columnCount_pos_of_rowCount_pos (by omega)⟩]
  rfl

theorem isSome_rowKey? {row : Nat} (h : row < t.rowCount) : (t.rowKey? row).isSome := by
  rw [rowKey?_eq_rowKeyAt h]
  exact (Parts.rowKeyAt_isSome_iff t.keyed.size_cells).2 h

lemma mem_rowKeys {row : Nat} {v : Value} (h : row < t.rowCount) (hv : t.rowKey? row = some v) :
    (v, row) ∈ t.toParts.rowKeys := by
  rw [rowKey?_eq_rowKeyAt h] at hv
  refine List.mem_filterMap.2 ⟨row, List.mem_range.2 h, ?_⟩
  rw [hv]
  rfl

/-- Different rows have different keys. -/
theorem rowKey?_injective {i j : Nat} (hi : i < t.rowCount) (hj : j < t.rowCount)
    (h : t.rowKey? i = t.rowKey? j) : i = j := by
  obtain ⟨v, hv⟩ := Option.isSome_iff_exists.1 (isSome_rowKey? hi)
  have hmi := mem_rowKeys hi hv
  have hmj := mem_rowKeys hj (h ▸ hv)
  exact congrArg Prod.snd (List.inj_on_of_nodup_map t.keyed.nodup_rowKeys hmi hmj rfl)

/-- A row key is found at a row of the table. -/
theorem lt_of_rowOrdinal? {key : Value} {row : Nat} (h : t.rowOrdinal? key = some row) :
    row < t.rowCount := by
  obtain ⟨v, hv, _⟩ := Index.keyAt_of_find? h
  rw [← Parts.rowKeyAt_isSome_iff t.keyed.size_cells, hv]
  rfl

/-- The row found for a key is the one of this key. -/
theorem rowKey?_of_rowOrdinal? {key : Value} {row : Nat} (h : t.rowOrdinal? key = some row) :
    t.rowKey? row = some key := by
  obtain ⟨v, hv, hmatch⟩ := Index.keyAt_of_find? h
  rw [rowKey?_eq_rowKeyAt (lt_of_rowOrdinal? h), hv, (Value.isMatch_iff v key).1 hmatch]

/-- A column is found at a column of the table. -/
theorem lt_of_columnOrdinal? {key : Value} {col : Nat} (h : t.columnOrdinal? key = some col) :
    col < t.columnCount := by
  obtain ⟨a, ha, _⟩ := Index.keyAt_of_find? h
  exact (List.getElem?_eq_some_iff.1 ha).1

end KeyedTables.Table
