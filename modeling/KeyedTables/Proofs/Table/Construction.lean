import KeyedTables.Proofs.Table.Build

/-!
# What building a table comes to

A table is refused for the first of three reasons: its cells fill no whole number of rows, a column
stands there twice, a row key stands there twice. The error names the first key that was there
already, as if every key had been compared with every one before it: buckets and hashes cannot be
told from the outcome, although different keys often share a hash.
-/
namespace KeyedTables

section Repeats
variable {κ : Type} (same : κ → κ → Prop) (keyAt : Nat → Option κ)

/-- The key at a place stands at an earlier place as well. -/
def Repeats (i : Nat) : Prop := ∃ j < i, ∃ k k', keyAt j = some k ∧ keyAt i = some k' ∧ same k k'

/-- The key at a place is the first that stands at an earlier place as well. -/
def FirstRepeat (i : Nat) : Prop := Repeats same keyAt i ∧ ∀ j < i, ¬ Repeats same keyAt j

variable {same keyAt} {i j : Nat}

lemma exists_firstRepeat (h : Repeats same keyAt i) : ∃ j, FirstRepeat same keyAt j := by
  induction i using Nat.strongRecOn with
  | ind i ih =>
    by_cases hearlier : ∃ j < i, Repeats same keyAt j
    · obtain ⟨j, hj, hrepeats⟩ := hearlier
      exact ih j hj hrepeats
    · exact ⟨i, h, fun j hj hrepeats => hearlier ⟨j, hj, hrepeats⟩⟩

lemma FirstRepeat.unique (h : FirstRepeat same keyAt i) (h' : FirstRepeat same keyAt j) :
    i = j := by
  rcases Nat.lt_trichotomy i j with hlt | heq | hlt
  · exact absurd h.1 (h'.2 i hlt)
  · exact heq
  · exact absurd h'.1 (h.2 j hlt)

lemma nodup_iff_not_repeats {keys : List κ} : keys.Nodup ↔ ∀ i, ¬ Repeats Eq (keys[·]?) i := by
  rw [List.nodup_iff_getElem?_ne_getElem?]
  constructor
  · rintro h i ⟨j, hj, k, k', hk, hk', rfl⟩
    exact h j i hj (List.getElem?_eq_some_iff.1 hk').1 (hk.trans hk'.symm)
  · intro h j i hj hi heq
    have hk : keys[i]? = some keys[i] := List.getElem?_eq_getElem hi
    exact h i ⟨j, hj, keys[i], keys[i], heq.trans hk, hk, rfl⟩

/-- Behind distinct keys, one that is among them is the first to be repeated. -/
theorem firstRepeat_append {before after : List κ} {key : κ} (hnodup : before.Nodup)
    (hmem : key ∈ before) : FirstRepeat Eq ((before ++ key :: after)[·]?) before.length := by
  obtain ⟨j, hj, hkey⟩ := List.mem_iff_getElem.1 hmem
  have hbefore : ∀ i < before.length, (before ++ key :: after)[i]? = before[i]? := fun i hi =>
    List.getElem?_append_left hi
  constructor
  · refine ⟨j, hj, key, key, ?_, by simp, rfl⟩
    dsimp only
    rw [hbefore j hj, List.getElem?_eq_getElem hj, hkey]
  · rintro i hi ⟨j, hj, k, k', hk, hk', heq⟩
    dsimp only at hk hk'
    rw [hbefore i hi] at hk'
    rw [hbefore j (Nat.lt_trans hj hi)] at hk
    exact nodup_iff_not_repeats.1 hnodup i ⟨j, hj, k, k', hk, hk', heq⟩

end Repeats

namespace Table
open LawfulKey

section Enumerated
variable {κ : Type} [Key κ] [LawfulKey κ] {keyAt : Nat → Option κ} {keys : List (κ × Nat)}

/-- Keys that are numbered by their places are indexed up to the first repeated one. -/
theorem indexKeys_of_enumerated (hat : ∀ k ∈ keys, keyAt k.2 = some k.1)
    (hkeys : ∀ i, (keys.map Prod.fst)[i]? = keyAt i) (n : Nat) :
    match indexKeys probe keyAt keys (.withBuckets n) with
    | .ok _ => ∀ i, ¬ Repeats Eq keyAt i
    | .error key => ∃ i, FirstRepeat Eq keyAt i ∧ keyAt i = some key := by
  have hkeyAt : keyAt = ((keys.map Prod.fst)[·]?) := (funext hkeys).symm
  have houtcome := indexKeys_withBuckets_outcome hat n
  cases hresult : indexKeys probe keyAt keys (.withBuckets n) with
  | ok index =>
    rw [hresult] at houtcome
    rw [hkeyAt]
    exact nodup_iff_not_repeats.1 houtcome.1
  | error key =>
    rw [hresult] at houtcome
    obtain ⟨before, ordinal, after, rfl, hnodup, hmem⟩ := houtcome
    rw [List.map_append, List.map_cons] at hkeyAt
    rw [hkeyAt]
    exact ⟨before.length, by simpa using firstRepeat_append hnodup hmem, by simp⟩

end Enumerated

namespace Parts
variable {p : Parts}

/-- The cells fill whole rows. -/
def Whole (p : Parts) : Prop := p.cells.size = p.rowCount * p.columnCount

/-- Why parts are no table: the first of the reasons there may be. -/
inductive Refused (p : Parts) : Error → Prop
  | cellCount : ¬ p.Whole →
    Refused p (.cellCount p.name p.rowCount p.columnCount p.cells.size)
  | duplicateColumn {i : Nat} {column : Atom} : p.Whole → FirstRepeat Atom.Same p.column? i →
    p.column? i = some column → Refused p (.duplicateColumn p.name column)
  | duplicateRowKey {i : Nat} {key : Value} : p.Whole → (∀ i, ¬ Repeats Atom.Same p.column? i) →
    FirstRepeat Value.Same p.rowKeyAt i → p.rowKeyAt i = some key →
      Refused p (.duplicateRowKey p.name key)

/-- Nothing speaks against a table of these parts. -/
structure Distinct (p : Parts) : Prop where
  whole : p.Whole
  columns : ∀ i, ¬ Repeats Atom.Same p.column? i
  rowKeys : ∀ i, ¬ Repeats Value.Same p.rowKeyAt i

lemma getElem?_map_zipIdx (p : Parts) (i : Nat) :
    (p.columns.zipIdx.map Prod.fst)[i]? = p.column? i := by
  rw [List.zipIdx_map_fst, column?]

/-- What comes of indexing parts, whatever the numbers of buckets. -/
theorem indices_outcome (p : Parts) (columnBuckets rowBuckets : Nat) :
    match p.indices columnBuckets rowBuckets with
    | .ok _ => p.Distinct
    | .error e => p.Refused e := by
  rw [indices]
  by_cases hsize : p.rowCount * p.columnCount = p.cells.size
  · have hwhole : p.Whole := hsize.symm
    have hcolumns := indexKeys_of_enumerated (κ := Atom) (fun _ => column?_of_mem_zipIdx)
      p.getElem?_map_zipIdx columnBuckets
    have hrows := indexKeys_of_enumerated (κ := Value) (fun _ => rowKeyAt_of_mem_rowKeys)
      (getElem?_map_rowKeys hwhole) rowBuckets
    have hatom : (probe : Atom → Value) = .atom := rfl
    have hvalue : (probe : Value → Value) = id := rfl
    rw [← Atom.same_eq, hatom] at hcolumns
    rw [← Value.same_eq, hvalue] at hrows
    rw [if_neg fun hne => hne hsize]
    cases hc : indexKeys .atom p.column? p.columns.zipIdx (.withBuckets columnBuckets) with
    | error column =>
      rw [hc] at hcolumns
      obtain ⟨i, hfirst, hcolumn⟩ := hcolumns
      exact .duplicateColumn hwhole hfirst hcolumn
    | ok columnIndex =>
      rw [hc] at hcolumns
      dsimp only
      cases hr : indexKeys id p.rowKeyAt p.rowKeys (.withBuckets rowBuckets) with
      | error key =>
        rw [hr] at hrows
        obtain ⟨i, hfirst, hkey⟩ := hrows
        exact .duplicateRowKey hwhole hcolumns hfirst hkey
      | ok rowIndex =>
        rw [hr] at hrows
        exact ⟨hwhole, hcolumns, hrows⟩
  · rw [if_pos hsize]
    exact .cellCount fun hwhole => hsize hwhole.symm

lemma distinct_iff : p.Distinct ↔ p.Whole ∧ (¬ ∃ i, Repeats Atom.Same p.column? i) ∧
    ¬ ∃ i, Repeats Value.Same p.rowKeyAt i := by
  constructor
  · intro h
    exact ⟨h.whole, fun ⟨i, hi⟩ => h.columns i hi, fun ⟨i, hi⟩ => h.rowKeys i hi⟩
  · rintro ⟨hwhole, hcolumns, hrows⟩
    exact ⟨hwhole, fun i hi => hcolumns ⟨i, hi⟩, fun i hi => hrows ⟨i, hi⟩⟩

lemma exists_refused_duplicateColumn_iff :
    (∃ column, p.Refused (.duplicateColumn p.name column)) ↔
      p.Whole ∧ ∃ i, Repeats Atom.Same p.column? i := by
  constructor
  · rintro ⟨column, hwhole | ⟨hwhole, hfirst, _⟩⟩
    exact ⟨hwhole, _, hfirst.1⟩
  · rintro ⟨hwhole, i, hrepeats⟩
    obtain ⟨i, hfirst⟩ := exists_firstRepeat hrepeats
    obtain ⟨j, _, k, column, _, hcolumn, _⟩ := hfirst.1
    exact ⟨column, .duplicateColumn hwhole hfirst hcolumn⟩

lemma exists_refused_duplicateRowKey_iff :
    (∃ key, p.Refused (.duplicateRowKey p.name key)) ↔
      p.Whole ∧ (¬ ∃ i, Repeats Atom.Same p.column? i) ∧ ∃ i, Repeats Value.Same p.rowKeyAt i := by
  constructor
  · rintro ⟨key, hwhole | _ | ⟨hwhole, hdistinct, hfirst, _⟩⟩
    exact ⟨hwhole, fun ⟨i, hrepeats⟩ => hdistinct i hrepeats, _, hfirst.1⟩
  · rintro ⟨hwhole, hdistinct, i, hrepeats⟩
    obtain ⟨i, hfirst⟩ := exists_firstRepeat hrepeats
    obtain ⟨j, _, k, key, _, hkey, _⟩ := hfirst.1
    exact ⟨key, .duplicateRowKey hwhole (fun i hi => hdistinct ⟨i, hi⟩) hfirst hkey⟩

lemma Distinct.not_refused (h : p.Distinct) {e : Error} : ¬ p.Refused e := by
  rintro (hwhole | ⟨_, hfirst, _⟩ | ⟨_, _, hfirst, _⟩)
  · exact hwhole h.whole
  · exact h.columns _ hfirst.1
  · exact h.rowKeys _ hfirst.1

/-- There is one reason only. -/
theorem Refused.unique {e e' : Error} (h : p.Refused e) (h' : p.Refused e') : e = e' := by
  cases h with
  | cellCount hnot =>
    cases h' with
    | cellCount => rfl
    | duplicateColumn hwhole => exact absurd hwhole hnot
    | duplicateRowKey hwhole => exact absurd hwhole hnot
  | duplicateColumn hwhole hfirst hcolumn =>
    cases h' with
    | cellCount hnot => exact absurd hwhole hnot
    | duplicateColumn _ hfirst' hcolumn' =>
      rw [hfirst.unique hfirst', hcolumn'] at hcolumn
      cases hcolumn
      rfl
    | duplicateRowKey _ hdistinct => exact absurd hfirst.1 (hdistinct _)
  | duplicateRowKey hwhole hdistinct hfirst hkey =>
    cases h' with
    | cellCount hnot => exact absurd hwhole hnot
    | duplicateColumn _ hfirst' => exact absurd hfirst'.1 (hdistinct _)
    | duplicateRowKey _ _ hfirst' hkey' =>
      rw [hfirst.unique hfirst', hkey'] at hkey
      cases hkey
      rfl

end Parts

section Build
variable {p : Parts} {columnBuckets rowBuckets : Nat}

theorem buildWith_eq_error {e : Error} (h : buildWith p columnBuckets rowBuckets = .error e) :
    p.Refused e := by
  have houtcome := p.indices_outcome columnBuckets rowBuckets
  unfold buildWith at h
  split at h
  · rename_i hindices
    rw [hindices] at houtcome
    cases h
    exact houtcome
  · cases h

lemma distinct_of_buildWith {t : Table} (h : buildWith p columnBuckets rowBuckets = .ok t) :
    p.Distinct := by
  have houtcome := p.indices_outcome columnBuckets rowBuckets
  unfold buildWith at h
  split at h
  · cases h
  · rename_i hindices
    rw [hindices] at houtcome
    exact houtcome

lemma buildWith_eq_error_iff {e : Error} :
    buildWith p columnBuckets rowBuckets = .error e ↔ p.Refused e := by
  refine ⟨buildWith_eq_error, fun hrefused => ?_⟩
  cases hbuilt : buildWith p columnBuckets rowBuckets with
  | error e' => rw [(buildWith_eq_error hbuilt).unique hrefused]
  | ok t => exact absurd hrefused (distinct_of_buildWith hbuilt).not_refused

lemma exists_buildWith_iff :
    (∃ t, buildWith p columnBuckets rowBuckets = .ok t) ↔ p.Distinct := by
  refine ⟨fun ⟨t, ht⟩ => distinct_of_buildWith ht, fun hdistinct => ?_⟩
  cases hbuilt : buildWith p columnBuckets rowBuckets with
  | error e => exact absurd (buildWith_eq_error hbuilt) hdistinct.not_refused
  | ok t => exact ⟨t, rfl⟩

end Build

/-- What a table is refused for, whatever the numbers of buckets: cells that fill no whole rows,
then the first column that stands at an earlier place as well, then the first such row key; if there
is none, the table is built. Keys are compared by type and content, so that those with a common hash
are told apart. -/
theorem buildWith_outcome (p : Parts) (columnBuckets rowBuckets : Nat) :
    let built := buildWith p columnBuckets rowBuckets
    let whole := p.cells.size = p.rowCount * p.columnCount
    let columnRepeats := ∃ i, Repeats Atom.Same p.column? i
    let rowKeyRepeats := ∃ i, Repeats Value.Same p.rowKeyAt i
    (built = .error (.cellCount p.name p.rowCount p.columnCount p.cells.size) ↔ ¬ whole) ∧
      ((∃ column, built = .error (.duplicateColumn p.name column)) ↔ whole ∧ columnRepeats) ∧
      ((∃ key, built = .error (.duplicateRowKey p.name key)) ↔
        whole ∧ ¬ columnRepeats ∧ rowKeyRepeats) ∧
      ((∃ t, built = .ok t) ↔ whole ∧ ¬ columnRepeats ∧ ¬ rowKeyRepeats) ∧
      (∀ column, built = .error (.duplicateColumn p.name column) →
        ∃ i, FirstRepeat Atom.Same p.column? i ∧ p.column? i = some column) ∧
      (∀ key, built = .error (.duplicateRowKey p.name key) →
        ∃ i, FirstRepeat Value.Same p.rowKeyAt i ∧ p.rowKeyAt i = some key) ∧
      (∀ t, built = .ok t → t.toParts = p) ∧
      (∀ a b : Atom, a.Same b → a.typeName = b.typeName) ∧
      (∀ xs ys : List Atom, xs.Perm ys →
        (Value.multifield xs).hash = (Value.multifield ys).hash ∧
          ((Value.multifield xs).Same (.multifield ys) ↔ xs = ys)) ∧
      ∀ a : Atom, (Value.multifield [a]).hash = (Value.atom a).hash ∧
        ¬ (Value.multifield [a]).Same (.atom a) ∧ ¬ (Value.atom a).Same (.multifield [a]) := by
  intro built whole columnRepeats rowKeyRepeats
  have hrefused : ∀ e, built = .error e ↔ p.Refused e := fun e => buildWith_eq_error_iff
  refine ⟨?_, ?_, ?_, ?_, fun column h => ?_, fun key h => ?_, fun t h => (buildWith_eq_ok h).1,
    fun a b h => ?_, fun xs ys h => ⟨Value.hash_multifield_of_perm h, ?_⟩,
    fun a => ⟨Value.hash_multifield_singleton a, id, id⟩⟩
  · rw [hrefused]
    exact ⟨fun | .cellCount hnot => hnot, .cellCount⟩
  · simp only [hrefused]
    exact Parts.exists_refused_duplicateColumn_iff
  · simp only [hrefused]
    exact Parts.exists_refused_duplicateRowKey_iff
  · rw [exists_buildWith_iff]
    exact Parts.distinct_iff
  · cases (hrefused _).1 h with
    | duplicateColumn _ hfirst hcolumn => exact ⟨_, hfirst, hcolumn⟩
  · cases (hrefused _).1 h with
    | duplicateRowKey _ _ hfirst hkey => exact ⟨_, hfirst, hkey⟩
  · rw [Atom.same_eq] at h
    rw [h]
  · rw [Value.same_eq, Value.multifield.injEq]

end Table

end KeyedTables
