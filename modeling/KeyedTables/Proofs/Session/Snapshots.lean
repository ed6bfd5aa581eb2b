import KeyedTables.Proofs.Session.Catalog
import KeyedTables.Proofs.Snapshot.Encoding
import KeyedTables.Proofs.Snapshot.Frame

/-!
# Saving and restoring

Whatever a session has come to, hostile snapshots restored in it included, its modules and tables
can be saved, and restored wherever no table is busy.
-/
namespace KeyedTables

namespace Snapshot
variable {expand : Expander} {compress : Compressor} {codec : Codec} {raw : List UInt8}

/-- The snapshot of a valid catalog is one of its contents. -/
theorem toCatalog_ofCatalog {c : Catalog} (hc : c.Valid) (hraw : Payload.encode c = .ok raw)
    (hlen : raw.length ≤ 0x7FFFFFFF) (h : codec = .lz4 → expand.Restores compress raw) :
    ∃ bytes c', ofCatalog compress codec c = .ok bytes ∧ toCatalog expand bytes = .ok c' ∧
      c'.contents = c.contents := by
  obtain ⟨stored, hpack, hstored, hunpack⟩ := exists_pack hlen h
  obtain ⟨c', hdecode, hcontents⟩ := Payload.decode_encode hc hraw (by omega)
  refine ⟨frame codec raw.length stored, c', ?_, ?_, hcontents⟩
  · rw [ofCatalog, hraw]
    change (pack compress codec raw >>= _) = _
    rw [hpack]
    rfl
  · rw [toCatalog, payload_frame hlen hstored hunpack]
    exact hdecode

end Snapshot

/-- Throughout every session the catalog has a payload, and if this is not too long, and compressor
and expander, where they are used, do not lose any of it, a snapshot can be saved and be restored
wherever no table is busy: modules and tables are then the same again, and so is their payload. -/
theorem snapshot_round_trip (config : Config) (steps : List Step) (compress : Snapshot.Compressor)
    (expand : Snapshot.Expander) :
    let env := (Session.run config steps).env
    ∃ raw, Payload.encode env.catalog = .ok raw ∧
      (raw.length ≤ 0x7FFFFFFF →
        (env.config.compression = .lz4 → expand.Restores compress raw) →
        ∃ bytes, env.saveWith compress = .ok bytes ∧
          ∀ other : Environment, other.catalog.firstBusy? = none →
            ∃ c, Environment.restoreWith expand bytes other = .ok () { other with catalog := c } ∧
              c.contents = env.catalog.contents ∧ Payload.encode c = .ok raw) := by
  intro env
  have hvalid : env.catalog.Valid := (Session.sound_run config steps).valid
  obtain ⟨raw, hraw⟩ := Payload.exists_encode hvalid
  refine ⟨raw, hraw, fun hlen hcompress => ?_⟩
  obtain ⟨bytes, c, hsave, hrestore, hcontents⟩ :=
    Snapshot.toCatalog_ofCatalog hvalid hraw hlen hcompress
  refine ⟨bytes, hsave, fun other hbusy => ?_⟩
  have hsame : (c.succeeding other.catalog).contents = env.catalog.contents := by
    rw [Catalog.contents_succeeding, hcontents]
  refine ⟨c.succeeding other.catalog, ?_, hsame, ?_⟩
  · unfold Environment.restoreWith
    rw [hbusy]
    dsimp only
    rw [hrestore]
  · rw [Payload.encode_congr hsame, hraw]

/-- Two modules with a table each, saved as literals and restored where there was nothing. -/
theorem snapshot_round_trip_of_two_modules :
    let env := (Session.run .default
      [.build "(deftable rates (code factor) (a 1.5) (b (create$ x y 2)))",
        .build "(defmodule REGIONS (import MAIN))",
        .build "(deftable names (declare (auto-keys TRUE)) (name) (north) (south))"]).env
    ∃ raw bytes c, raw.length = 250 ∧ env.config.compression = .lz4 ∧
      Snapshot.Expander.Restores Snapshot.expandBlock Snapshot.literally raw ∧
        env.saveWith Snapshot.literally = .ok bytes ∧
          (Environment.new .default).catalog.firstBusy? = none ∧
            Environment.restore bytes (.new .default) =
              .ok () { Environment.new .default with catalog := c } ∧
                c.contents = env.catalog.contents ∧
                  c.contents.modules.map (fun m => m.tables.length) = [1, 1] := by
  intro env
  obtain ⟨raw, hraw, h⟩ := snapshot_round_trip .default _ Snapshot.literally Snapshot.expandBlock
  have hlength : (match Payload.encode env.catalog with
      | .ok raw => raw.length
      | .error _ => 0) = 250 := by
    decide +kernel
  rw [hraw] at hlength
  have hmax : raw.length ≤ Snapshot.maxCapacity := Nat.le_trans (Nat.le_of_eq hlength) (by decide)
  have hrestores := Snapshot.expandBlock_restores hmax
  have hbusy : (Environment.new .default).catalog.firstBusy? = none := rfl
  obtain ⟨bytes, hsave, hrestore⟩ := h (Nat.le_trans hmax (by decide)) fun _ => hrestores
  obtain ⟨c, hc, hcontents, _⟩ := hrestore (.new .default) hbusy
  refine ⟨raw, bytes, c, hlength, by decide +kernel, hrestores, hsave, hbusy, hc, hcontents, ?_⟩
  rw [hcontents]
  decide +kernel

end KeyedTables
