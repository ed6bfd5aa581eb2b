import KeyedTables.Number.Bytes

/-!
# Compressed blocks

The LZ4 block format. A block is a row of sequences: a token with two lengths of four bits, a run of
literal bytes, and a match that repeats earlier output, given by its distance and length. A length
of fifteen is continued in further bytes. The last sequence has literals only. A block is expanded
into a given capacity and refused as a whole if it does not fit, if it ends too early or too late,
or if a match reaches back beyond the output.

Literals and matches also keep the distance from the end of the block that the format prescribes,
except in a sequence of short lengths that has enough input and capacity before it: there the
distance is not asked for.
-/
namespace KeyedTables.Block

/-- The rest of a length: bytes are added up to the first that is not 255. -/
def lengthTail : Nat → List UInt8 → Option (Nat × List UInt8)
  | _, [] => none
  | n, b :: bs => if b = 255 then lengthTail (n + 255) bs else some (n + b.toNat, bs)

/-- A length whose first four bits are given. -/
def length? (nibble : Nat) (input : List UInt8) : Option (Nat × List UInt8) :=
  if nibble = 15 then lengthTail 15 input else some (nibble, input)

/-- The literals of a sequence and the input behind them. -/
def literals? (token : UInt8) (input : List UInt8) : Option (List UInt8 × List UInt8) :=
  match length? (token.toNat / 16) input with
  | none => none
  | some (n, rest) => Bytes.split? n rest

/-- A repetition of earlier output. -/
structure Match where
  distance : Nat
  length : Nat

/-- The match of a sequence and the input behind it. A continued length is followed by four more
bytes at least. -/
def match? (token : UInt8) : List UInt8 → Option (Match × List UInt8)
  | low :: high :: input =>
    let nibble := token.toNat % 16
    match length? nibble input with
    | none => none
    | some (n, rest) =>
      if nibble = 15 ∧ !Bytes.atLeast 4 rest then none
      else some (⟨low.toNat + 256 * high.toNat, n + 4⟩, rest)
  | _ => none

/-- Repeats output byte by byte, so that a match may run into what it has itself produced. At
distance zero it is the byte to be written that is repeated, which counts as zero. -/
def copy (distance : Nat) : Nat → Array UInt8 → Array UInt8
  | 0, out => out
  | n + 1, out => copy distance n (out.push (out.getD (out.size - distance) 0))

theorem length_lengthTail {n : Nat} {input : List UInt8} {r : Nat × List UInt8}
    (h : lengthTail n input = some r) : r.2.length ≤ input.length := by
  fun_induction lengthTail n input with
  | case1 => simp at h
  | case2 n bs ih => have := ih h; simp only [List.length_cons]; omega
  | case3 n b bs hb => cases h; simp

theorem length_length? {nibble : Nat} {input : List UInt8} {r : Nat × List UInt8}
    (h : length? nibble input = some r) : r.2.length ≤ input.length := by
  unfold length? at h
  split at h
  · exact length_lengthTail h
  · cases h; exact Nat.le_refl _

theorem length_literals? {token : UInt8} {input : List UInt8} {r : List UInt8 × List UInt8}
    (h : literals? token input = some r) : r.2.length ≤ input.length := by
  unfold literals? at h
  split at h
  · simp at h
  · rename_i n rest hl
    have hr := Bytes.length_split? h
    have hi : rest.length ≤ input.length := length_length? hl
    omega

theorem length_match? {token : UInt8} {input : List UInt8} {r : Match × List UInt8}
    (h : match? token input = some r) : r.2.length ≤ input.length := by
  unfold match? at h
  split at h
  · simp only at h
    split at h
    · simp at h
    · rename_i hl
      split at h
      · simp at h
      · cases h
        have := length_length? hl
        simp only [List.length_cons] at this ⊢
        omega
  · simp at h

/-- Whether a sequence with less than fifteen literals has room all around: input for fourteen
literals, a distance and the next token, and capacity for fourteen literals and the longest match
whose length is not continued. -/
def isInner (capacity : Nat) (token : UInt8) (input : List UInt8) (out : Array UInt8) : Bool :=
  token.toNat / 16 ≠ 15 && Bytes.atLeast 17 input && out.size + 32 ≤ capacity

/-- Whether the literals just taken must be the last: fewer than eight bytes of input or fewer than
twelve of capacity are left, or the capacity is exceeded. -/
def isLast (capacity : Nat) (rest : List UInt8) (out : Array UInt8) : Bool :=
  !Bytes.atLeast 8 rest || capacity < out.size + 12

/-- Whether a match has a length that is not continued and lies eight bytes back or more. -/
def Match.isPlain (m : Match) : Bool := m.length ≤ 18 && 8 ≤ m.distance

/-- Whether a match stays within the output, and ends five bytes before the capacity unless it is a
plain match of an inner sequence. -/
def Match.fits (m : Match) (inner : Bool) (capacity : Nat) (out : Array UInt8) : Bool :=
  m.distance ≤ out.size && ((inner && m.isPlain) || out.size + m.length + 5 ≤ capacity)

/-- Expands sequences behind the output so far. -/
def expandFrom (capacity : Nat) (input : List UInt8) (out : Array UInt8) : Option (Array UInt8) :=
  match input with
  | [] => none
  | token :: input =>
    let inner := isInner capacity token input out
    match _hl : literals? token input with
    | none => none
    | some (literals, rest) =>
      let out := out ++ literals
      if !inner && isLast capacity rest out then
        if rest = [] ∧ out.size ≤ capacity then some out else none
      else
        match _hm : match? token rest with
        | none => none
        | some (m, rest) =>
          if m.fits inner capacity out then
            expandFrom capacity rest (copy m.distance m.length out)
          else none
termination_by input.length
decreasing_by
  have := length_literals? _hl
  have := length_match? _hm
  simp only [List.length_cons] at *
  omega

/-- Expands a block into at most `capacity` bytes. -/
def expand? (capacity : Nat) (block : List UInt8) : Option (List UInt8) :=
  if capacity = 0 then if block = [0] then some [] else none
  else (expandFrom capacity block #[]).map Array.toList

/-- The bytes that continue a length of fifteen or more. -/
def lengthBytes (n : Nat) : List UInt8 :=
  List.replicate (n / 255) 255 ++ [UInt8.ofNat (n % 255)]

/-- A block of a single sequence, all of it literals. -/
def ofLiterals (bytes : List UInt8) : List UInt8 :=
  let n := bytes.length
  if n < 15 then UInt8.ofNat (n * 16) :: bytes else 0xF0 :: (lengthBytes (n - 15) ++ bytes)

end KeyedTables.Block
