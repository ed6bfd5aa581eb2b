import KeyedTables.Proofs.Snapshot.Checksum
import KeyedTables.Proofs.Snapshot.Frame

/-!
# Corrupted snapshots

A snapshot some of whose bytes were replaced is refused for its checksum, if these lie within four
bytes in a row of the payload, or among the four of the checksum itself. The header is read before
and is in order, and nothing is expanded or decoded.
-/
namespace KeyedTables

namespace Snapshot
variable {expand : Expander} {codec : Codec} {rawLength length : Nat} {bytes raw : List UInt8}

lemma Framed.checksum_eq (h : Framed bytes codec rawLength length) (hp : payload expand bytes = .ok raw) :
    number bytes (headerLength + length) 4 =
      (Checksum.ofBytes (field bytes headerLength length)).toNat := by
  rw [h.payload_eq] at hp
  split at hp
  · cases hp
  · rename_i hsum
    exact Decidable.not_not.1 hsum

section Parts
variable {header stored stored' trailer trailer' : List UInt8}

/-- What is stored stands between the header and the last four bytes. -/
theorem Framed.of_parts (h : Framed (header ++ stored ++ trailer) codec rawLength length)
    (hheader : header.length = headerLength) (htrailer : trailer.length = 4) :
    field (header ++ stored ++ trailer) headerLength length = stored ∧
      number (header ++ stored ++ trailer) (headerLength + length) 4 = Bytes.toNat trailer := by
  have hlength : stored.length = length := by
    have htotal := h.length_eq
    rw [List.length_append, List.length_append] at htotal
    omega
  refine ⟨field_of_eq rfl hheader hlength, ?_⟩
  rw [number, field_of_eq (List.append_nil _).symm (by rw [List.length_append]; omega) htrailer]

/-- Behind the same header, what is stored and what stands behind it must fit each other. -/
theorem payload_of_parts (hp : payload expand (header ++ stored ++ trailer) = .ok raw)
    (hheader : header.length = headerLength) (htrailer : trailer.length = 4) :
    Bytes.toNat trailer = (Checksum.ofBytes stored).toNat ∧
      (stored'.length = stored.length → trailer'.length = 4 →
        Bytes.toNat trailer' ≠ (Checksum.ofBytes stored').toNat →
          payload expand (header ++ stored' ++ trailer') = .error .checksumMismatch) := by
  obtain ⟨codec, rawLength, length, hframed⟩ := framed_of_payload hp
  obtain ⟨hfield, hnumber⟩ := hframed.of_parts hheader htrailer
  constructor
  · rw [← hnumber, hframed.checksum_eq hp, hfield]
  · intro hstored' htrailer' hne
    have hframed' : Framed (header ++ stored' ++ trailer') codec rawLength length := by
      refine hframed.of_header ?_ ?_
      · rw [List.append_assoc, List.append_assoc, List.take_left' hheader, List.take_left' hheader]
      · simp only [List.length_append, hstored', htrailer, htrailer']
    obtain ⟨hfield', hnumber'⟩ := hframed'.of_parts hheader htrailer'
    rw [hframed'.payload_eq, hfield', hnumber', if_pos hne]

end Parts

section Windows
variable {before mid mid' after : List UInt8}

lemma exists_append {bs : List UInt8} {n : Nat} (h : n ≤ bs.length) :
    ∃ front back, bs = front ++ back ∧ front.length = n :=
  ⟨bs.take n, bs.drop n, (List.take_append_drop n bs).symm, List.length_take_of_le h⟩

lemma payload_of_corrupted_window (hp : payload expand (before ++ mid ++ after) = .ok raw)
    (hlength : mid'.length = mid.length) (hne : mid' ≠ mid)
    (hbefore : headerLength ≤ before.length) (hmid : mid.length ≤ 4) (hafter : 4 ≤ after.length) :
    payload expand (before ++ mid' ++ after) = .error .checksumMismatch := by
  obtain ⟨header, front, rfl, hheader⟩ := exists_append hbefore
  obtain ⟨back, trailer, rfl, hback⟩ := exists_append (Nat.sub_le after.length 4)
  have htrailer : trailer.length = 4 := by
    rw [List.length_append] at hback hafter
    omega
  have hassoc : ∀ window : List UInt8, header ++ front ++ window ++ (back ++ trailer) =
      header ++ (front ++ window ++ back) ++ trailer := fun window => by
    simp only [List.append_assoc]
  rw [hassoc] at hp ⊢
  obtain ⟨hsum, hrefused⟩ := payload_of_parts hp hheader htrailer
  refine hrefused (by simp only [List.length_append, hlength]) htrailer fun hsum' => hne ?_
  rw [hsum] at hsum'
  -- both payloads would have one checksum, which four bytes in a row cannot bring about
  exact Checksum.eq_of_ofBytes_eq hlength hmid (UInt32.toNat_inj.1 hsum').symm

lemma payload_of_corrupted_trailer (hp : payload expand (before ++ mid ++ after) = .ok raw)
    (hlength : mid'.length = mid.length) (hne : mid' ≠ mid)
    (htrailer : mid.length + after.length ≤ 4) :
    payload expand (before ++ mid' ++ after) = .error .checksumMismatch := by
  obtain ⟨codec, rawLength, length, hframed⟩ := framed_of_payload hp
  have htotal := hframed.length_eq
  rw [List.length_append, List.length_append] at htotal
  obtain ⟨header, rest, rfl, hheader⟩ :=
    exists_append (show headerLength ≤ before.length by omega)
  rw [List.length_append] at htotal
  obtain ⟨stored, start, rfl, hstored⟩ := exists_append (show length ≤ rest.length by omega)
  rw [List.length_append] at htotal
  have hassoc : ∀ window : List UInt8, header ++ (stored ++ start) ++ window ++ after =
      header ++ stored ++ (start ++ window ++ after) := fun window => by
    simp only [List.append_assoc]
  have hfour : ∀ window : List UInt8, window.length = mid.length →
      (start ++ window ++ after).length = 4 := fun window hwindow => by
    rw [List.length_append, List.length_append]
    omega
  rw [hassoc] at hp ⊢
  obtain ⟨hsum, hrefused⟩ := payload_of_parts hp hheader (hfour mid rfl)
  refine hrefused rfl (hfour mid' hlength) fun hsum' => hne ?_
  have hsame := Bytes.eq_of_toNat_eq ((hfour mid' hlength).trans (hfour mid rfl).symm)
    (hsum'.trans hsum.symm)
  exact List.append_cancel_left (List.append_cancel_right hsame)

end Windows

end Snapshot

lemma Environment.payload_of_restoreWith {expand : Snapshot.Expander} {bytes : List UInt8}
    {env env' : Environment} (h : Environment.restoreWith expand bytes env = .ok () env') :
    ∃ raw, Snapshot.payload expand bytes = .ok raw := by
  unfold Environment.restoreWith Snapshot.toCatalog at h
  cases hpayload : Snapshot.payload expand bytes with
  | error e =>
    rw [hpayload] at h
    split at h
    · cases h
    · cases h
  | ok raw => exact ⟨raw, rfl⟩

/-- A snapshot that was restored somewhere, whatever its codec and its length, is refused everywhere
else for its checksum once some of its bytes have been replaced by others, if these stand within
four bytes in a row of the payload or among the last four. The environment stays as it is. -/
theorem corrupted_snapshot_is_refused {expand : Snapshot.Expander} {before mid mid' after : List UInt8}
    {env₀ env₁ : Environment}
    (haccepted : Environment.restoreWith expand (before ++ mid ++ after) env₀ = .ok () env₁)
    (hlength : mid'.length = mid.length) (hne : mid' ≠ mid)
    (hwhere : (Snapshot.headerLength ≤ before.length ∧ mid.length ≤ 4 ∧ 4 ≤ after.length) ∨
      mid.length + after.length ≤ 4)
    {env : Environment} (hbusy : env.catalog.firstBusy? = none) :
    Environment.restoreWith expand (before ++ mid' ++ after) env = .error .checksumMismatch env := by
  obtain ⟨raw, hpayload⟩ := Environment.payload_of_restoreWith haccepted
  have hrefused : Snapshot.payload expand (before ++ mid' ++ after) = .error .checksumMismatch := by
    obtain ⟨hbefore, hmid, hafter⟩ | htrailer := hwhere
    · exact Snapshot.payload_of_corrupted_window hpayload hlength hne hbefore hmid hafter
    · exact Snapshot.payload_of_corrupted_trailer hpayload hlength hne htrailer
  unfold Environment.restoreWith
  rw [hbusy]
  dsimp only
  rw [Snapshot.toCatalog, hrefused]

/-- A compressed snapshot of a catalog that holds no table: with four other bytes in its payload it
is refused, and so is it with another byte at its end, also where it has been restored before. -/
theorem corrupted_snapshot_of_no_table_is_refused :
    let bytes := Snapshot.frame .lz4 28 (Block.ofLiterals
      [4, 0, 0, 0, 77, 65, 73, 78, 1, 0, 0, 0, 4, 0, 0, 0, 77, 65, 73, 78, 0, 0, 0, 0, 0, 0, 0, 0])
    ∃ env, Environment.restore bytes (.new .default) = .ok () env ∧
      env.catalog.modules.map Module.name = ["MAIN"] ∧
        Environment.restore (bytes.take 40 ++ [9, 9, 9, 9] ++ bytes.drop 44) env =
          .error .checksumMismatch env ∧
        Environment.restore (bytes.take 54 ++ [0]) env = .error .checksumMismatch env := by
  intro bytes
  have hrestored : (match Environment.restore bytes (.new .default) with
      | .ok _ env => decide (env.catalog.modules.map Module.name = ["MAIN"] ∧
          env.catalog.firstBusy? = none)
      | .error _ _ => false) = true := by
    decide +kernel
  have hwindow : bytes = bytes.take 40 ++ (bytes.drop 40).take 4 ++ bytes.drop 44 := by
    decide +kernel
  have hend : bytes = bytes.take 54 ++ bytes.drop 54 ++ [] := by
    decide +kernel
  split at hrestored
  · rename_i env henv
    obtain ⟨hmodules, hbusy⟩ := of_decide_eq_true hrestored
    refine ⟨env, henv, hmodules, ?_, ?_⟩
    · rw [hwindow] at henv
      exact corrupted_snapshot_is_refused henv (by decide +kernel) (by decide +kernel)
        (by decide +kernel) hbusy
    · rw [hend] at henv
      have hrefused : Environment.restore (bytes.take 54 ++ [0] ++ []) env =
          .error .checksumMismatch env :=
        corrupted_snapshot_is_refused henv (by decide +kernel) (by decide +kernel)
          (by decide +kernel) hbusy
      rwa [List.append_nil] at hrefused
  · cases hrestored

end KeyedTables
