/-!
# UTF-8

Characters as one to four bytes. Decoding takes the shortest form only, no surrogates and nothing
past the last code point; at a fault it tells where the ill-formed sequence starts, and how many
bytes of it are certainly not the beginning of a character, or that the text merely ends too early.
-/
namespace KeyedTables.Utf8

def encodeChar (c : Char) : List UInt8 := String.utf8EncodeChar c

def encode (cs : List Char) : List UInt8 := cs.flatMap encodeChar

@[simp] theorem encode_nil : encode [] = [] := rfl

@[simp] theorem encode_append (xs ys : List Char) : encode (xs ++ ys) = encode xs ++ encode ys := by
  simp [encode]

/-- Where decoding stops. -/
inductive Fault
  /-- `length` bytes at `index` belong to no character. -/
  | invalid (index length : Nat)
  /-- The bytes from `index` on begin a character, but do not complete it. -/
  | incomplete (index : Nat)
  deriving DecidableEq, Repr

def Fault.text : Fault → String
  | invalid index length =>
    "invalid utf-8 sequence of " ++ toString length ++ " bytes from index " ++ toString index
  | incomplete index => "incomplete utf-8 byte sequence from index " ++ toString index

/-- Whether a byte continues a character. -/
def isTail (b : UInt8) : Bool := 0x80 ≤ b && b ≤ 0xBF

/-- The second bytes allowed after the first byte of a character of three or four bytes. -/
def secondAllowed (first second : UInt8) : Bool :=
  if first = 0xE0 then 0xA0 ≤ second && second ≤ 0xBF
  else if first = 0xED then 0x80 ≤ second && second ≤ 0x9F
  else if first = 0xF0 then 0x90 ≤ second && second ≤ 0xBF
  else if first = 0xF4 then 0x80 ≤ second && second ≤ 0x8F
  else isTail second

/-- The length of a character by its first byte. -/
def width? (first : UInt8) : Option Nat :=
  if first < 0x80 then some 1
  else if 0xC2 ≤ first && first ≤ 0xDF then some 2
  else if 0xE0 ≤ first && first ≤ 0xEF then some 3
  else if 0xF0 ≤ first && first ≤ 0xF4 then some 4
  else none

/-- The six low bits of a byte that continues a character. -/
def tailBits (b : UInt8) : Nat := b.toNat % 64

/-- One character at the front of the bytes, and the rest; `index` is where the bytes begin. -/
def decodeChar (index : Nat) : List UInt8 → Except Fault (Char × List UInt8)
  | [] => .error (.incomplete index)
  | a :: rest =>
    match width? a, rest with
    | none, _ => .error (.invalid index 1)
    | some 1, _ => .ok (Char.ofNat a.toNat, rest)
    | some 2, [] => .error (.incomplete index)
    | some 2, b :: rest =>
      if isTail b then .ok (Char.ofNat (a.toNat % 32 * 64 + tailBits b), rest)
      else .error (.invalid index 1)
    | some _, [] => .error (.incomplete index)
    | some n, b :: rest =>
      if !secondAllowed a b then .error (.invalid index 1)
      else
        match rest with
        | [] => .error (.incomplete index)
        | c :: rest =>
          if !isTail c then .error (.invalid index 2)
          else if n = 3 then
            .ok (Char.ofNat (a.toNat % 16 * 4096 + tailBits b * 64 + tailBits c), rest)
          else
            match rest with
            | [] => .error (.incomplete index)
            | d :: rest =>
              if !isTail d then .error (.invalid index 3)
              else
                .ok (Char.ofNat
                  (a.toNat % 8 * 262144 + tailBits b * 4096 + tailBits c * 64 + tailBits d), rest)

theorem length_decodeChar {index : Nat} {bytes rest : List UInt8} {c : Char}
    (h : decodeChar index bytes = .ok (c, rest)) : rest.length < bytes.length := by
  unfold decodeChar at h
  grind

/-- All characters of the bytes, behind those decoded before, which stand last first. -/
def decodeFrom (index : Nat) (bytes : List UInt8) (before : List Char) :
    Except Fault (List Char) :=
  match bytes with
  | [] => .ok before.reverse
  | b :: bs =>
    match _h : decodeChar index (b :: bs) with
    | .error e => .error e
    | .ok (c, rest) => decodeFrom (index + c.utf8Size) rest (c :: before)
termination_by bytes.length
decreasing_by exact length_decodeChar _h

def decode (bytes : List UInt8) : Except Fault (List Char) := decodeFrom 0 bytes []

theorem decodeFrom_nil (index : Nat) (before : List Char) :
    decodeFrom index [] before = .ok before.reverse := by
  rw [decodeFrom]

theorem decodeFrom_of_char {index : Nat} {bytes rest : List UInt8} {c : Char}
    (before : List Char) (h : decodeChar index bytes = .ok (c, rest)) :
    decodeFrom index bytes before = decodeFrom (index + c.utf8Size) rest (c :: before) := by
  cases bytes with
  | nil => cases h
  | cons b bs =>
    rw [decodeFrom]
    split <;> simp_all

/-- What was decoded before goes in front of the rest. -/
theorem decodeFrom_eq (index : Nat) (bytes : List UInt8) (before : List Char) :
    decodeFrom index bytes before = (decodeFrom index bytes []).map (before.reverse ++ ·) := by
  suffices h : ∀ first, decodeFrom index bytes (first ++ before) =
      (decodeFrom index bytes first).map (before.reverse ++ ·) from h []
  intro first
  fun_induction decodeFrom index bytes first with
  | case1 => simp [decodeFrom_nil, Except.map]
  | case2 index first b bs e h =>
    rw [decodeFrom]
    split <;> simp_all [Except.map]
  | case3 index first b bs c rest h ih => rw [decodeFrom_of_char _ h, ← ih, List.cons_append]

end KeyedTables.Utf8
