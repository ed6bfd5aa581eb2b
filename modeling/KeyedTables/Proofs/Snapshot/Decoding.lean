import KeyedTables.Proofs.Catalog.Serials
import KeyedTables.Snapshot

/-!
# What decoding yields

Whatever bytes are decoded, a catalog that comes out is valid, and its tables are told apart by
their serial numbers: it is built from the initial catalog by the operations of the catalog alone,
and every table in it has been checked for its size.
-/
namespace KeyedTables.Payload

namespace Decoder
variable {α β : Type} {input rest : List UInt8}

theorem bind_eq_ok {m : Decoder α} {f : α → Decoder β} {r : β × List UInt8}
    (h : (m >>= f) input = .ok r) :
    ∃ a input', m input = .ok (a, input') ∧ f a input' = .ok r := by
  change (m input >>= fun p => f p.1 p.2) = .ok r at h
  obtain ⟨p, hm, h⟩ := KeyedTables.bind_eq_ok h
  exact ⟨p.1, p.2, hm, h⟩

theorem ofExcept_eq_ok {x : Except Error α} {a : α} (h : ofExcept x input = .ok (a, rest)) :
    x = .ok a ∧ rest = input := by
  cases x with
  | error e => cases h
  | ok b =>
    cases h
    exact ⟨rfl, rfl⟩

lemma length_times {item : Decoder α} {n : Nat} {xs : List α}
    (h : times item n input = .ok (xs, rest)) : xs.length = n := by
  induction n generalizing input xs with
  | zero =>
    rw [times_zero] at h
    cases h
    rfl
  | succ n ih =>
    rw [times_succ] at h
    cases hi : item input with
    | error e =>
      rw [hi] at h
      cases h
    | ok p =>
      rw [hi] at h
      dsimp only at h
      cases ht : times item n p.2 with
      | error e =>
        rw [ht] at h
        cases h
      | ok q =>
        rw [ht] at h
        cases h
        rw [List.length_cons, ih ht]

lemma le_of_checkBuckets {table : String} {axis : Axis} {buckets keys : Nat}
    (h : checkBuckets table axis buckets keys input = .ok ((), rest)) : buckets ≤ bucketLimit keys := by
  unfold checkBuckets at h
  split at h
  · cases h
  · omega

/-- The table of a record that was read has columns and no more buckets than are allowed. -/
theorem sized_of_table {names : List String} {r : TableRecord} {t : Table}
    (h : table names input = .ok (r, rest))
    (hb : Table.buildWith r.parts r.columnBuckets r.rowBuckets = .ok t) : t.Sized := by
  obtain ⟨ordinal, input₁, _, h⟩ := bind_eq_ok h
  cases howner : names[ordinal]? with
  | none =>
    rw [howner] at h
    cases h
  | some owner =>
    rw [howner] at h
    obtain ⟨name, _, _, h⟩ := bind_eq_ok h
    obtain ⟨comment, _, _, h⟩ := bind_eq_ok h
    obtain ⟨autoKeys, _, _, h⟩ := bind_eq_ok h
    obtain ⟨columnCount, _, _, h⟩ := bind_eq_ok h
    obtain ⟨rowCount, _, _, h⟩ := bind_eq_ok h
    obtain ⟨columnBuckets, _, _, h⟩ := bind_eq_ok h
    obtain ⟨rowBuckets, _, _, h⟩ := bind_eq_ok h
    split at h
    · cases h
    · rename_i hpos
      obtain ⟨_, _, _, h⟩ := bind_eq_ok h
      split at h
      · cases h
      · obtain ⟨_, _, hcb, h⟩ := bind_eq_ok h
        obtain ⟨_, _, hrb, h⟩ := bind_eq_ok h
        obtain ⟨columns, _, hcolumns, h⟩ := bind_eq_ok h
        obtain ⟨cells, _, hcells, h⟩ := bind_eq_ok h
        cases h
        have hcl := length_times hcolumns
        have hrl := length_times hcells
        have hne : columns ≠ [] := fun hnil => hpos (by rw [← hcl, hnil, List.length_nil])
        have hrow : Table.Parts.rowCount ⟨name, owner, comment, autoKeys ≠ 0, columns, cells.toArray⟩ =
            rowCount := by
          rw [Table.Parts.rowCount, Table.Parts.columnCount, List.size_toArray, hrl, hcl]
          exact Nat.mul_div_cancel _ (Nat.pos_of_ne_zero hpos)
        refine Table.sized_of_buildWith hb hne ?_ ?_
        · rw [Table.Parts.columnCount, hcl]
          exact le_of_checkBuckets hcb
        · rw [hrow]
          exact le_of_checkBuckets hrb

lemma sound_tables {names : List String} {n : Nat} {c c' : Catalog} (hc : c.Sound [])
    (h : tables names n c input = .ok (c', rest)) : c'.Sound [] := by
  induction n generalizing c input with
  | zero =>
    cases h
    exact hc
  | succ n ih =>
    obtain ⟨r, _, hr, h⟩ := bind_eq_ok h
    obtain ⟨t, _, ht, h⟩ := bind_eq_ok h
    obtain ⟨⟨c₁, new⟩, _, hi, h⟩ := bind_eq_ok h
    have hsized := sized_of_table hr (ofExcept_eq_ok ht).1
    exact ih (hc.install hsized (ofExcept_eq_ok hi).1) h

end Decoder

lemma sound_defineModules {modules : List (String × List String)} {c c' : Catalog}
    (hc : c.Sound []) (h : defineModules modules c = .ok c') : c'.Sound [] := by
  induction modules generalizing c with
  | nil =>
    cases h
    exact hc
  | cons m modules ih =>
    rw [defineModules] at h
    cases hd : c.defineModule m.1 m.2 with
    | error e =>
      rw [hd] at h
      cases h
    | ok c₁ =>
      rw [hd] at h
      exact ih (hc.defineModule hd) h

theorem sound_catalogOf {modules : List (String × List String)} {c : Catalog}
    (h : catalogOf modules = .ok c) : c.Sound [] := by
  unfold catalogOf at h
  split at h
  · cases h
  · rename_i hd
    exact sound_defineModules (sound_defineModules Catalog.sound_initial hd) h

/-- What a payload holds: the name of the current module, and the catalog before that is set. -/
def contents : Decoder (String × Catalog) := do
  let current ← Decoder.text
  let moduleCount ← Decoder.count 4
  let modules ← Decoder.times Decoder.module moduleCount
  let c ← Decoder.ofExcept (catalogOf modules)
  let tableCount ← Decoder.count 4
  let c ← Decoder.tables (modules.map Prod.fst) tableCount c
  return (current, c)

/-- Behind the contents there must be nothing. -/
theorem decode_eq (bytes : List UInt8) : decode bytes =
    match contents bytes with
    | .error e => .error e
    | .ok ((current, c), rest) =>
      if rest ≠ [] then .error (.snapshot (.trailing rest.length)) else c.setCurrent current := by
  have hcatalog : catalog = contents >>= fun r => (do
      let rest ← Decoder.rest
      if rest ≠ [] then Decoder.fail (.trailing rest.length)
      else Decoder.ofExcept (r.2.setCurrent r.1)) := by
    simp only [catalog, contents, bind_assoc, pure_bind]
  rw [decode, hcatalog]
  change (contents bytes >>= _).map Prod.fst = _
  cases contents bytes with
  | error e => rfl
  | ok r =>
    obtain ⟨⟨current, c⟩, rest⟩ := r
    change Except.map Prod.fst ((if rest ≠ [] then Decoder.fail (.trailing rest.length)
      else Decoder.ofExcept (c.setCurrent current)) rest) = _
    dsimp only
    split
    · rfl
    · cases c.setCurrent current <;> rfl

theorem contents_of_decode {bytes : List UInt8} {c : Catalog} (h : decode bytes = .ok c) :
    ∃ current c₁, contents bytes = .ok ((current, c₁), []) ∧ c₁.setCurrent current = .ok c := by
  rw [decode_eq] at h
  split at h
  · cases h
  · rename_i current c₁ rest hcontents
    split at h
    · cases h
    · rename_i hrest
      rw [not_not.1 hrest] at hcontents
      exact ⟨current, c₁, hcontents, h⟩

/-- Every catalog that is decoded is valid. -/
theorem sound_decode {bytes : List UInt8} {c : Catalog} (h : decode bytes = .ok c) : c.Sound [] := by
  obtain ⟨current, c₁, hcontents, hset⟩ := contents_of_decode h
  obtain ⟨_, _, _, h⟩ := Decoder.bind_eq_ok hcontents
  obtain ⟨moduleCount, _, _, h⟩ := Decoder.bind_eq_ok h
  obtain ⟨modules, _, _, h⟩ := Decoder.bind_eq_ok h
  obtain ⟨c₀, _, hmodules, h⟩ := Decoder.bind_eq_ok h
  obtain ⟨tableCount, _, _, h⟩ := Decoder.bind_eq_ok h
  obtain ⟨c₂, _, htables, h⟩ := Decoder.bind_eq_ok h
  cases h
  have hsound : c₁.Sound [] :=
    Decoder.sound_tables (sound_catalogOf (Decoder.ofExcept_eq_ok hmodules).1) htables
  exact hsound.setCurrent hset

end KeyedTables.Payload

namespace KeyedTables.Snapshot

theorem sound_toCatalog {expand : Expander} {bytes : List UInt8} {c : Catalog}
    (h : toCatalog expand bytes = .ok c) : c.Sound [] := by
  unfold toCatalog at h
  split at h
  · cases h
  · exact Payload.sound_decode h

end KeyedTables.Snapshot
