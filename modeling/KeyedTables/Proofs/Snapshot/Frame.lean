import KeyedTables.Proofs.Snapshot.Block

/-!
# Payloads in their frame

Every field of a snapshot is found at its position again, so the payload that was framed passes all
checks and is handed out, whatever the codec, if the codec expands what was stored to it.
-/
namespace KeyedTables.Snapshot

section Fields
variable {bytes before mid after : List UInt8} {position n v : Nat}

theorem field_of_eq (h : bytes = before ++ mid ++ after) (hposition : before.length = position)
    (hn : mid.length = n) : field bytes position n = mid := by
  subst h hposition hn
  rw [field, List.append_assoc, List.drop_left, List.take_left]

lemma number_of_eq (h : bytes = before ++ Bytes.ofNat n v ++ after)
    (hposition : before.length = position) (hv : v < Nat.pow 256 n) :
    number bytes position n = v := by
  rw [number, field_of_eq h hposition (Bytes.length_ofNat n v), Bytes.toNat_ofNat,
    Nat.mod_eq_of_lt hv]

end Fields

/-- Bytes whose header tells the codec and the two lengths of a payload, with room for it and for
four bytes behind it. -/
structure Framed (bytes : List UInt8) (codec : Codec) (rawLength length : Nat) : Prop where
  length_eq : bytes.length = headerLength + length + 4
  magic_eq : bytes.take 8 = magic
  version_eq : number bytes 8 4 = version
  codec_eq : Codec.ofTag? (bytes.getD 12 0) = some codec
  rawLength_eq : number bytes 13 4 = rawLength
  rawLength_le : rawLength ≤ 0x7FFFFFFF
  storedLength_eq : number bytes 17 4 = length

section Headers
variable {expand : Expander} {bytes bytes' raw : List UInt8} {codec : Codec}
  {rawLength length : Nat}

/-- Behind a header in order only the checksum and what is stored matter. -/
theorem Framed.payload_eq (h : Framed bytes codec rawLength length) : payload expand bytes =
    if number bytes (headerLength + length) 4 ≠
        (Checksum.ofBytes (field bytes headerLength length)).toNat then .error .checksumMismatch
    else
      match unpack expand codec rawLength (field bytes headerLength length) with
      | .error e => .error e
      | .ok raw => if raw.length ≠ rawLength then .error (.snapshot .payloadLength) else .ok raw := by
  have hlength := h.length_eq
  have hstart : ¬ (bytes.length < headerLength + 4 ∨ bytes.take 8 ≠ magic) := by
    rintro (hlt | hne)
    · omega
    · exact hne h.magic_eq
  unfold payload
  rw [if_neg hstart, if_neg (fun hne => hne h.version_eq), h.codec_eq]
  dsimp only
  rw [h.rawLength_eq, h.storedLength_eq, if_neg (Nat.not_lt.2 h.rawLength_le)]
  exact if_neg fun hne => hne hlength

/-- The header of a payload that is handed out is in order. -/
theorem framed_of_payload (h : payload expand bytes = .ok raw) :
    ∃ codec rawLength length, Framed bytes codec rawLength length := by
  unfold payload at h
  split at h
  · cases h
  · rename_i hstart
    split at h
    · cases h
    · rename_i hversion
      split at h
      · cases h
      · rename_i codec hcodec
        dsimp only at h
        split at h
        · cases h
        · rename_i hraw
          split at h
          · cases h
          · rename_i hlength
            exact ⟨codec, _, _, Decidable.not_not.1 hlength,
              Decidable.not_not.1 fun hne => hstart (Or.inr hne), Decidable.not_not.1 hversion,
              hcodec, rfl, Nat.not_lt.1 hraw, rfl⟩

section SameHeader
variable (hheader : bytes'.take headerLength = bytes.take headerLength)
include hheader

lemma getElem?_of_header {i : Nat} (hi : i < headerLength) : bytes'[i]? = bytes[i]? := by
  rw [← List.getElem?_take_of_lt hi, hheader, List.getElem?_take_of_lt hi]

lemma field_of_header {position n : Nat} (h : position + n ≤ headerLength) :
    field bytes' position n = field bytes position n := by
  apply List.ext_getElem?
  intro i
  rw [field, field, List.getElem?_take, List.getElem?_take, List.getElem?_drop, List.getElem?_drop]
  split
  · exact getElem?_of_header hheader (by omega)
  · rfl

/-- Bytes of the same length and with the same header are framed alike. -/
theorem Framed.of_header (h : Framed bytes codec rawLength length)
    (hlength : bytes'.length = bytes.length) : Framed bytes' codec rawLength length where
  length_eq := hlength.trans h.length_eq
  magic_eq := (field_of_header hheader (show 0 + 8 ≤ headerLength by decide)).trans h.magic_eq
  version_eq := by
    rw [number, field_of_header hheader (by decide)]
    exact h.version_eq
  codec_eq := by
    rw [List.getD_eq_getElem?_getD, getElem?_of_header hheader (by decide),
      ← List.getD_eq_getElem?_getD]
    exact h.codec_eq
  rawLength_eq := by
    rw [number, field_of_header hheader (by decide)]
    exact h.rawLength_eq
  rawLength_le := h.rawLength_le
  storedLength_eq := by
    rw [number, field_of_header hheader (by decide)]
    exact h.storedLength_eq

end SameHeader

end Headers

section Frame
variable {expand : Expander} {compress : Compressor} {codec : Codec} {raw stored : List UInt8}

lemma length_frame (codec : Codec) (rawLength : Nat) (stored : List UInt8) :
    (frame codec rawLength stored).length = headerLength + stored.length + 4 := by
  simp only [frame, List.length_append, Bytes.length_ofNat]
  rfl

lemma framed_frame (codec : Codec) {rawLength : Nat} (hraw : rawLength ≤ 0x7FFFFFFF)
    (hstored : stored.length < 0x100000000) :
    Framed (frame codec rawLength stored) codec rawLength stored.length where
  length_eq := length_frame codec rawLength stored
  magic_eq := by
    simp only [frame, List.append_assoc]
    exact List.take_left' rfl
  version_eq := by
    have h : frame codec rawLength stored = magic ++ Bytes.ofNat 4 version ++
        ([codec.tag] ++ Bytes.ofNat 4 rawLength ++ Bytes.ofNat 4 stored.length ++ stored ++
          Bytes.ofNat 4 (Checksum.ofBytes stored).toNat) := by
      simp only [frame, List.append_assoc]
    exact number_of_eq h rfl (by decide)
  codec_eq := Codec.ofTag?_tag codec
  rawLength_eq := by
    have h : frame codec rawLength stored = (magic ++ Bytes.ofNat 4 version ++ [codec.tag]) ++
        Bytes.ofNat 4 rawLength ++ (Bytes.ofNat 4 stored.length ++ stored ++
          Bytes.ofNat 4 (Checksum.ofBytes stored).toNat) := by
      simp only [frame, List.append_assoc]
    exact number_of_eq h rfl (Nat.lt_of_le_of_lt hraw (by decide))
  rawLength_le := hraw
  storedLength_eq := by
    have h : frame codec rawLength stored =
        (magic ++ Bytes.ofNat 4 version ++ [codec.tag] ++ Bytes.ofNat 4 rawLength) ++
          Bytes.ofNat 4 stored.length ++ (stored ++ Bytes.ofNat 4 (Checksum.ofBytes stored).toNat) := by
      simp only [frame, List.append_assoc]
    exact number_of_eq h rfl hstored

/-- What was framed passes all checks. -/
theorem payload_frame (hraw : raw.length ≤ 0x7FFFFFFF) (hstored : stored.length < 0x100000000)
    (hunpack : unpack expand codec raw.length stored = .ok raw) :
    payload expand (frame codec raw.length stored) = .ok raw := by
  have hfield : field (frame codec raw.length stored) headerLength stored.length = stored :=
    field_of_eq rfl rfl rfl
  have hsum : number (frame codec raw.length stored) (headerLength + stored.length) 4 =
      (Checksum.ofBytes stored).toNat := by
    have h : frame codec raw.length stored = (magic ++ Bytes.ofNat 4 version ++ [codec.tag] ++
        Bytes.ofNat 4 raw.length ++ Bytes.ofNat 4 stored.length ++ stored) ++
          Bytes.ofNat 4 (Checksum.ofBytes stored).toNat ++ [] := by
      simp only [frame, List.append_nil]
    refine number_of_eq h ?_ (Checksum.ofBytes stored).toNat_lt
    simp only [List.length_append, Bytes.length_ofNat]
    rfl
  rw [(framed_frame codec hraw hstored).payload_eq, hfield, hsum, if_neg (fun hne => hne rfl), hunpack]
  exact if_neg fun hne => hne rfl

/-- What is packed can be stored and is unpacked to what it was. -/
theorem exists_pack (hlen : raw.length ≤ 0x7FFFFFFF)
    (h : codec = .lz4 → expand.Restores compress raw) :
    ∃ stored, pack compress codec raw = .ok stored ∧ stored.length < 0x100000000 ∧
      unpack expand codec raw.length stored = .ok raw := by
  cases codec with
  | plain => exact ⟨raw, rfl, by omega, rfl⟩
  | lz4 =>
    obtain ⟨block, hblock, hlength, hexpand⟩ := h rfl
    refine ⟨block, ?_, hlength, ?_⟩
    · rw [pack, hblock]
    · rw [unpack, hexpand]
      rfl

end Frame

end KeyedTables.Snapshot
