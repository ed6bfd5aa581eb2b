import KeyedTables.Proofs.Table.Build
import KeyedTables.Snapshot.Payload
import KeyedTables.Table.Definition

/-!
# The size of defined tables

A table that a definition builds has at least one column, and as many buckets as its keys call for.
That is within the limit up to which buckets are taken over from a snapshot.
-/
namespace KeyedTables

open Payload.Decoder (bucketLimit)

/-- There are columns, and no more buckets than a snapshot may ask for. -/
structure Table.Sized (t : Table) : Prop where
  columns_ne_nil : t.columns ≠ []
  columnBuckets_le : t.columnIndex.bucketCount ≤ bucketLimit t.columnCount
  rowBuckets_le : t.rowIndex.bucketCount ≤ bucketLimit t.rowCount

theorem Table.sized_of_buildWith {p : Table.Parts} {columnBuckets rowBuckets : Nat} {t : Table}
    (h : Table.buildWith p columnBuckets rowBuckets = .ok t) (hp : p.columns ≠ [])
    (hc : columnBuckets ≤ bucketLimit p.columnCount) (hr : rowBuckets ≤ bucketLimit p.rowCount) :
    t.Sized := by
  obtain ⟨rfl, hcount, hrcount⟩ := Table.buildWith_eq_ok h
  unfold bucketLimit at hc hr
  refine ⟨hp, ?_, ?_⟩
  · rw [hcount, bucketLimit]
    omega
  · rw [hrcount, bucketLimit]
    omega

lemma Table.sized_of_build {p : Table.Parts} {t : Table} (h : Table.build p = .ok t)
    (hp : p.columns ≠ []) : t.Sized :=
  Table.sized_of_buildWith h hp (Nat.le_add_right _ _) (Nat.le_add_right _ _)

namespace Definition

lemma columns_ne_nil_of_clausesOf {table keyColumn : String} {declared : Option Bool}
    {items rows : List Form} {autoKeys : Bool} {columns : List Atom}
    (h : clausesOf table keyColumn declared items = .ok (autoKeys, columns, rows)) :
    columns ≠ [] := by
  induction items generalizing declared with
  | nil => cases h
  | cons item rest ih =>
    unfold clausesOf at h
    split at h
    · cases h
    · split at h
      · split at h
        · cases h
        · split at h
          · cases h
          · exact ih h
      · dsimp only at h
        split at h
        · cases h
        · rename_i named _
          by_cases hne :
              (if declared.getD false then Atom.symbol keyColumn :: named else named) = []
          · rw [if_pos hne] at h
            cases h
          · rw [if_neg hne] at h
            simp only [Except.ok.injEq, Prod.mk.injEq] at h
            rw [← h.2.1]
            exact hne

lemma columns_ne_nil_of_headerOf {defaultModule keyColumn : String} {items rows : List Form}
    {header : Header} (h : headerOf defaultModule keyColumn items = .ok (header, rows)) :
    header.columns ≠ [] := by
  unfold headerOf at h
  split at h
  · cases h
  · dsimp only at h
    split at h
    · cases h
    · rename_i hc
      cases h
      exact columns_ne_nil_of_clausesOf hc

section Cells
variable {σ : Type} {evaluate : Form → EStateM Error σ Value} {defaultModule keyColumn : String}
  {form : List Form} {s s' : σ}

theorem bind_eq_ok {α β : Type} {m : EStateM Error σ α} {f : α → EStateM Error σ β} {b : β}
    (h : (m >>= f) s = .ok b s') : ∃ a s₁, m s = .ok a s₁ ∧ f a s₁ = .ok b s' := by
  change EStateM.bind m f s = .ok b s' at h
  unfold EStateM.bind at h
  cases hm : m s with
  | error e s₁ =>
    rw [hm] at h
    cases h
  | ok a s₁ =>
    rw [hm] at h
    exact ⟨a, s₁, rfl, h⟩

lemma columns_ne_nil_of_parts {p : Table.Parts}
    (h : parts evaluate defaultModule keyColumn form s = .ok p s') : p.columns ≠ [] := by
  unfold parts at h
  cases hh : headerOf defaultModule keyColumn form.tail with
  | error e =>
    rw [hh] at h
    cases h
  | ok header =>
    rw [hh] at h
    obtain ⟨cells, s₁, _, h⟩ := bind_eq_ok h
    cases h
    exact columns_ne_nil_of_headerOf hh

/-- Every table built by a definition is sized. -/
theorem sized_of_table {t : Table}
    (h : table evaluate defaultModule keyColumn form s = .ok t s') : t.Sized := by
  obtain ⟨p, s₁, hp, h⟩ := bind_eq_ok h
  cases hb : Table.build p with
  | error e =>
    rw [hb] at h
    cases h
  | ok t' =>
    rw [hb] at h
    cases h
    exact Table.sized_of_build hb (columns_ne_nil_of_parts hp)

end Cells

end Definition

end KeyedTables
