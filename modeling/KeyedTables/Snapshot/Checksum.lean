/-!
# Checksums

The reflected 32-bit cyclic redundancy check with polynomial `0xEDB88320`, register and result
complemented: a register is shifted down bit by bit, and takes the polynomial whenever a one drops
out.
-/
namespace KeyedTables.Checksum

/-- One shift of the register. -/
def shift (r : UInt32) : UInt32 :=
  if r &&& 1 = 1 then (r >>> 1) ^^^ 0xEDB88320 else r >>> 1

/-- The register after one byte. -/
def step (r : UInt32) (b : UInt8) : UInt32 := Nat.repeat shift 8 (r ^^^ b.toUInt32)

/-- The register after some bytes. -/
def absorb (r : UInt32) (bytes : List UInt8) : UInt32 := bytes.foldl step r

def ofBytes (bytes : List UInt8) : UInt32 := absorb 0xFFFFFFFF bytes ^^^ 0xFFFFFFFF

theorem absorb_append (r : UInt32) (xs ys : List UInt8) :
    absorb r (xs ++ ys) = absorb (absorb r xs) ys := List.foldl_append

end KeyedTables.Checksum
