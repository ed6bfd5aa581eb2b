import KeyedTables.Number.Bytes
import KeyedTables.Text.Utf8
import KeyedTables.Value

/-!
# Keys

How rows and columns are found: by a 64-bit hash and then by equality. The hash of an atom runs over
its kind and the bytes of its content; the hash of a multifield is the sum of its atoms' hashes. So
a multifield and its permutations share a hash, as do an atom and the multifield of it alone, and it
takes the comparison to tell them apart.
-/
namespace KeyedTables

namespace Hash

/-- Mixes bytes into a hash, one after another. -/
def absorb (h : UInt64) (bytes : List UInt8) : UInt64 :=
  bytes.foldl (fun h b => (h ^^^ b.toUInt64) * 0x100000001B3) h

/-- The hash of content of one kind. -/
def ofContent (kind : UInt8) (bytes : List UInt8) : UInt64 :=
  absorb 0xCBF29CE484222325 (kind :: bytes)

def textBytes (s : String) : List UInt8 := Utf8.encode s.toList

def wordBytes (w : UInt64) : List UInt8 := Bytes.ofNat 8 w.toNat

theorem absorb_append (h : UInt64) (xs ys : List UInt8) :
    absorb h (xs ++ ys) = absorb (absorb h xs) ys := List.foldl_append

end Hash

open Hash in
def Atom.hash : Atom → UInt64
  | symbol s => ofContent 1 (textBytes s)
  | string s => ofContent 2 (textBytes s)
  | integer i => ofContent 3 (wordBytes i.toUInt64)
  | float x => ofContent 4 (wordBytes x.bits)

def Value.hash : Value → UInt64
  | atom a => a.hash
  | multifield xs => xs.foldl (fun h a => h + a.hash) 0

/-- Keys that an index can hold: what a probe is compared with. -/
class Key (κ : Type) where
  isMatch : κ → Value → Bool

/-- An atom matches a probe that is the same atom. -/
def Atom.isMatch (key : Atom) : Value → Bool
  | .atom a => a == key
  | .multifield _ => false

/-- Atoms match as atoms; multifields match when they are of one length and match atom by atom. -/
def Value.isMatch : Value → Value → Bool
  | atom k, atom p => k == p
  | multifield ks, multifield ps =>
    ks.length == ps.length && (ks.zip ps).all fun (k, p) => k == p
  | _, _ => Bool.false

instance : Key Atom := ⟨Atom.isMatch⟩
instance : Key Value := ⟨Value.isMatch⟩

end KeyedTables
