import KeyedTables.Evaluation.Environment
import KeyedTables.Snapshot.Block
import KeyedTables.Snapshot.Checksum
import KeyedTables.Snapshot.Payload

/-!
# Snapshots

All modules and tables as one string of bytes: a magic word, a version, the codec, the lengths of
the payload before and after compression, the payload, and a checksum over it as stored. Restoring a
snapshot replaces the whole catalog, or leaves everything as it is.
-/
namespace KeyedTables.Snapshot

def magic : List UInt8 := [0x49, 0x44, 0x58, 0x54, 0x42, 0x4C, 0x00, 0x00]

def version : Nat := 1

/-- The length of what stands before the payload. -/
def headerLength : Nat := 21

/-- The greatest length of what is compressed, and the greatest capacity a block is expanded into. -/
def maxCapacity : Nat := 0x7E000000

/-- A way to make a block of a payload, which may be too long for one. -/
abbrev Compressor := List UInt8 → Option (List UInt8)

/-- A way to expand a block into at most so many bytes. -/
abbrev Expander := Nat → List UInt8 → Except CompressionFault (List UInt8)

/-- The compressor that takes all bytes as literals. -/
def literally : Compressor := fun raw =>
  if raw.length ≤ maxCapacity then some (Block.ofLiterals raw) else none

/-- The expander of blocks, which has a greatest capacity. -/
def expandBlock : Expander := fun capacity block =>
  if maxCapacity < capacity then .error .capacity
  else
    match Block.expand? capacity block with
    | some raw => .ok raw
    | none => .error .invalidBlock

/-- The payload as it is stored. -/
def pack (compress : Compressor) (codec : Codec) (raw : List UInt8) : Except Error (List UInt8) :=
  match codec with
  | .plain => .ok raw
  | .lz4 =>
    match compress raw with
    | some block => .ok block
    | none => .error (.compression .inputLength)

/-- The stored payload expanded, its length being given. -/
def unpack (expand : Expander) (codec : Codec) (rawLength : Nat) (stored : List UInt8) :
    Except Error (List UInt8) :=
  match codec with
  | .plain => .ok stored
  | .lz4 => (expand rawLength stored).mapError .compression

/-- The bytes of a snapshot with a given stored payload. -/
def frame (codec : Codec) (rawLength : Nat) (stored : List UInt8) : List UInt8 :=
  magic ++ Bytes.ofNat 4 version ++ [codec.tag] ++ Bytes.ofNat 4 rawLength ++
    Bytes.ofNat 4 stored.length ++ stored ++ Bytes.ofNat 4 (Checksum.ofBytes stored).toNat

/-- The snapshot of a catalog. -/
def ofCatalog (compress : Compressor) (codec : Codec) (c : Catalog) : Except Error (List UInt8) := do
  let raw ← Payload.encode c
  let stored ← pack compress codec raw
  .ok (frame codec raw.length stored)

/-- `n` bytes from a position on. -/
def field (bytes : List UInt8) (position n : Nat) : List UInt8 := (bytes.drop position).take n

/-- The number in `n` bytes from a position on. -/
def number (bytes : List UInt8) (position n : Nat) : Nat := Bytes.toNat (field bytes position n)

/-- The payload of a snapshot, expanded; header and checksum are verified before it is touched. -/
def payload (expand : Expander) (bytes : List UInt8) : Except Error (List UInt8) :=
  if bytes.length < headerLength + 4 ∨ bytes.take 8 ≠ magic then .error (.snapshot .magic)
  else if number bytes 8 4 ≠ version then .error (.snapshot (.version (number bytes 8 4)))
  else
    match Codec.ofTag? (bytes.getD 12 0) with
    | none => .error (.snapshot .codec)
    | some codec =>
      let rawLength := number bytes 13 4
      let length := number bytes 17 4
      if 0x7FFFFFFF < rawLength then .error (.snapshot (.rawLength rawLength))
      else if bytes.length ≠ headerLength + length + 4 then .error (.snapshot .frameLength)
      else
        let stored := field bytes headerLength length
        if number bytes (headerLength + length) 4 ≠ (Checksum.ofBytes stored).toNat then
          .error .checksumMismatch
        else
          match unpack expand codec rawLength stored with
          | .error e => .error e
          | .ok raw =>
            if raw.length ≠ rawLength then .error (.snapshot .payloadLength) else .ok raw

/-- The catalog of a snapshot. -/
def toCatalog (expand : Expander) (bytes : List UInt8) : Except Error Catalog :=
  match payload expand bytes with
  | .error e => .error e
  | .ok raw => Payload.decode raw

end KeyedTables.Snapshot

namespace KeyedTables.Environment

/-- The snapshot of all modules and tables. -/
def saveWith (compress : Snapshot.Compressor) (env : Environment) : Except Error (List UInt8) :=
  Snapshot.ofCatalog compress env.config.compression env.catalog

def save (env : Environment) : Except Error (List UInt8) := env.saveWith Snapshot.literally

/-- Replaces the catalog by that of a snapshot, unless one of its tables is busy. -/
def restoreWith (expand : Snapshot.Expander) (bytes : List UInt8) : Eval Unit := fun env =>
  match env.catalog.firstBusy? with
  | some t => .error (env.catalog.inUse t) env
  | none =>
    match Snapshot.toCatalog expand bytes with
    | .ok catalog => .ok () { env with catalog := catalog.succeeding env.catalog }
    | .error e => .error e env

def restore (bytes : List UInt8) : Eval Unit := restoreWith Snapshot.expandBlock bytes

end KeyedTables.Environment
