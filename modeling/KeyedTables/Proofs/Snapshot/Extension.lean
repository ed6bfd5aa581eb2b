import KeyedTables.Proofs.Snapshot.Decoding
import KeyedTables.Proofs.Snapshot.Reading

/-!
# More bytes behind a payload

What a decoder has read it reads again when more bytes stand behind the input, and it leaves those.
So bytes behind a payload are always told from it: no payload begins with another one.
-/
namespace KeyedTables.Payload

namespace Decoder
variable {α β : Type}

/-- What is read is read all the same when more bytes stand behind the input. -/
def Stable (m : Decoder α) : Prop :=
  ∀ input a rest more, m input = .ok (a, rest) → m (input ++ more) = .ok (a, rest ++ more)

section Steps
variable {m : Decoder α} {f : α → Decoder β}

lemma Stable.pure (a : α) : Stable (pure a) := by
  intro input a' rest more h
  cases h
  rfl

lemma Stable.fail (fault : SnapshotFault) : Stable (fail fault : Decoder α) := by
  intro input a rest more h
  cases h

lemma Stable.bind (hm : m.Stable) (hf : ∀ a, (f a).Stable) : (m >>= f).Stable := by
  intro input b rest more h
  obtain ⟨a, input', hfirst, hnext⟩ := bind_eq_ok h
  rw [run_bind_of_ok (hm _ _ _ more hfirst)]
  exact hf a _ _ _ more hnext

lemma Stable.bind_pure (hm : m.Stable) (g : α → β) : Stable (m >>= fun a => Pure.pure (g a)) :=
  hm.bind fun a => .pure (g a)

lemma stable_ofExcept (x : Except Error α) : Stable (ofExcept x) := by
  intro input a rest more h
  obtain ⟨rfl, rfl⟩ := ofExcept_eq_ok h
  rfl

/-- Bytes that are there are there also when more follow. -/
theorem Stable.of_atLeast {f : List UInt8 → Decoder α} {n : Nat} {fault : SnapshotFault}
    (hf : ∀ input, f input = if Bytes.atLeast n input then m else Decoder.fail fault)
    (hm : m.Stable) : (Decoder.rest >>= f).Stable := by
  intro input a rest more h
  rw [run_bind_of_ok (run_rest input), hf] at h
  rw [run_bind_of_ok (run_rest (input ++ more)), hf]
  split at h
  · rename_i hn
    have hmore : Bytes.atLeast n (input ++ more) = true := by
      rw [Bytes.atLeast_iff] at hn ⊢
      rw [List.length_append]
      omega
    rw [if_pos hmore]
    exact hm _ _ _ more h
  · cases h

lemma stable_take (n : Nat) : (take n).Stable := by
  intro input xs rest more h
  unfold take at h
  split at h
  · rename_i r hsplit
    cases h
    obtain ⟨rfl, rfl⟩ := Bytes.split?_eq_some_iff.1 hsplit
    rw [take, List.append_assoc, Bytes.split?_append]
  · cases h

lemma stable_byte : byte.Stable := by
  intro input b rest more h
  cases input with
  | nil => cases h
  | cons b' input =>
    cases h
    rfl

lemma stable_word : word.Stable := (stable_take 4).bind_pure Bytes.toNat

lemma stable_doubleWord : doubleWord.Stable :=
  (stable_take 8).bind_pure fun bs => UInt64.ofNat (Bytes.toNat bs)

lemma stable_count (width : Nat) : (count width).Stable :=
  stable_word.bind fun n => .of_atLeast (fun _ => rfl) (.pure n)

lemma Stable.times {item : Decoder α} (h : item.Stable) (n : Nat) : (times item n).Stable := by
  induction n with
  | zero =>
    intro input xs rest more ht
    cases ht
    rfl
  | succ n ih =>
    intro input xs rest more ht
    rw [times_succ] at ht ⊢
    cases hi : item input with
    | error e =>
      rw [hi] at ht
      cases ht
    | ok r =>
      rw [hi] at ht
      rw [h _ _ _ more hi]
      dsimp only at ht ⊢
      cases hr : Decoder.times item n r.2 with
      | error e =>
        rw [hr] at ht
        cases ht
      | ok s =>
        rw [hr] at ht
        rw [ih _ _ _ more hr]
        cases ht
        rfl

end Steps

lemma stable_text : text.Stable := by
  refine (stable_count 1).bind fun n => (stable_take n).bind fun bs => ?_
  cases Utf8.decode bs with
  | ok cs => exact .pure _
  | error fault => exact .fail _

lemma stable_atomOf (tag : UInt8) : (atomOf tag).Stable := by
  unfold atomOf
  split
  · exact stable_text.bind_pure Atom.symbol
  · split
    · exact stable_text.bind_pure Atom.string
    · split
      · exact stable_doubleWord.bind_pure fun x => Atom.integer x.toInt64
      · split
        · exact stable_doubleWord.bind_pure fun x => Atom.float ⟨x⟩
        · exact .fail _

lemma stable_atom : atom.Stable := stable_byte.bind stable_atomOf

lemma stable_value : value.Stable := by
  refine stable_byte.bind fun tag => ?_
  split
  · exact (stable_count 1).bind fun n => (stable_atom.times n).bind_pure Value.multifield
  · exact (stable_atomOf tag).bind_pure Value.atom

lemma stable_module : module.Stable :=
  stable_text.bind fun name => (stable_count 4).bind fun n =>
    (stable_text.times n).bind_pure fun imports => (name, imports)

lemma stable_comment : comment.Stable := by
  refine stable_byte.bind fun b => ?_
  split
  · exact .pure none
  · exact stable_text.bind_pure some

lemma stable_checkBuckets (table : String) (axis : Axis) (buckets keys : Nat) :
    (checkBuckets table axis buckets keys).Stable := by
  unfold checkBuckets
  split
  · exact .fail _
  · exact .pure ()

lemma stable_table (names : List String) : (table names).Stable := by
  refine stable_word.bind fun ordinal => ?_
  split
  · exact .fail _
  · refine stable_text.bind fun name => stable_comment.bind fun comment =>
      stable_byte.bind fun autoKeys => (stable_count 1).bind fun columnCount =>
        stable_word.bind fun rowCount => stable_word.bind fun columnBuckets =>
          stable_word.bind fun rowBuckets => ?_
    split
    · exact .fail _
    · have hcells : ∀ (m : Decoder TableRecord) (input : List UInt8),
          (if !Bytes.atLeast (rowCount * columnCount) input then fail (.cellCount name) else m) =
            if Bytes.atLeast (rowCount * columnCount) input then m else fail (.cellCount name) := by
        intro m input
        cases Bytes.atLeast (rowCount * columnCount) input <;> rfl
      refine .of_atLeast (hcells _) ?_
      exact (stable_checkBuckets _ _ _ _).bind fun _ => (stable_checkBuckets _ _ _ _).bind fun _ =>
        (stable_atom.times columnCount).bind fun columns =>
          (stable_value.times (rowCount * columnCount)).bind_pure _

lemma stable_tables (names : List String) (n : Nat) (c : Catalog) : (tables names n c).Stable := by
  induction n generalizing c with
  | zero => exact .pure c
  | succ n ih =>
    exact (stable_table names).bind fun r => (stable_ofExcept _).bind fun t =>
      (stable_ofExcept _).bind fun installed => ih installed.1

end Decoder

lemma stable_contents : contents.Stable :=
  Decoder.stable_text.bind fun current => (Decoder.stable_count 4).bind fun moduleCount =>
    (Decoder.stable_module.times moduleCount).bind fun _ =>
      (Decoder.stable_ofExcept _).bind fun _ => (Decoder.stable_count 4).bind fun tableCount =>
        (Decoder.stable_tables _ tableCount _).bind_pure fun c => (current, c)

/-- Bytes behind a payload are counted and refused, so that nothing a payload begins with is one
itself, wherever it is cut off. -/
theorem decode_prefix_free {bytes : List UInt8} {c : Catalog} (h : decode bytes = .ok c) :
    (∀ more, more ≠ [] → decode (bytes ++ more) = .error (.snapshot (.trailing more.length))) ∧
      ∀ start, start <+: bytes → start ≠ bytes → ∃ e, decode start = .error e := by
  have hbehind : ∀ {bytes c}, decode bytes = .ok c → ∀ more, more ≠ [] →
      decode (bytes ++ more) = .error (.snapshot (.trailing more.length)) := by
    intro bytes c h more hmore
    obtain ⟨current, c₁, hcontents, _⟩ := contents_of_decode h
    rw [decode_eq, stable_contents _ _ _ more hcontents]
    exact if_pos hmore
  refine ⟨hbehind h, ?_⟩
  rintro start ⟨more, rfl⟩ hne
  cases hstart : decode start with
  | error e => exact ⟨e, rfl⟩
  | ok c' =>
    -- were the beginning a payload, the whole would be one with bytes behind it
    have hmore : more ≠ [] := fun hnil => hne (by rw [hnil, List.append_nil])
    rw [hbehind hstart more hmore] at h
    cases h

/-- The payload of a module with a table of one cell: two bytes behind it are refused, and so is
what is left without the cell. -/
theorem decode_prefix_free_of_one_cell :
    let bytes : List UInt8 :=
      [4, 0, 0, 0, 77, 65, 73, 78, 1, 0, 0, 0, 4, 0, 0, 0, 77, 65, 73, 78, 0, 0, 0, 0,
        1, 0, 0, 0, 0, 0, 0, 0, 1, 0, 0, 0, 116, 0, 0, 1, 0, 0, 0, 1, 0, 0, 0, 1, 0, 0, 0,
        1, 0, 0, 0, 0, 1, 0, 0, 0, 107, 2, 1, 0, 0, 0, 0, 0, 0, 0]
    (∃ c, decode bytes = .ok c ∧ c.tables.map (fun t => t.table.name) = ["t"]) ∧
      decode (bytes ++ [7, 0]) = .error (.snapshot (.trailing 2)) ∧
        ∃ e, decode (bytes.take 61) = .error e := by
  intro bytes
  have hdecodes : (decode bytes).toOption.map (fun c => c.tables.map fun t => t.table.name) =
      some ["t"] := by
    decide +kernel
  cases hc : decode bytes with
  | error e =>
    rw [hc] at hdecodes
    cases hdecodes
  | ok c =>
    rw [hc] at hdecodes
    obtain ⟨hbehind, hcut⟩ := decode_prefix_free hc
    exact ⟨⟨c, rfl, Option.some.inj hdecodes⟩, hbehind [7, 0] (by decide),
      hcut (bytes.take 61) (List.take_prefix 61 bytes) (by decide)⟩

end KeyedTables.Payload
