import KeyedTables.Form
import KeyedTables.Number.Numeral

/-!
# Tokens

Source text is a sequence of tokens with blanks and comments between them. `Token.next` takes one
token off a text, `Token.lex` all of them, each with the line reached behind it. A text that ends in
the middle of a token, or holds a malformed variable, yields the tokens before the fault.
-/
namespace KeyedTables

open Text

inductive Token
  | openList
  /-- An equals sign with the parenthesis right behind it. -/
  | openImmediate
  | close
  | atom (a : Atom)
  | var (name : String)
  | globalVar (name : String)
  deriving DecidableEq, Repr

/-- Why a text is not a sequence of forms. -/
inductive SyntaxFault
  | unterminatedString
  | malformedGlobal (word : String)
  | missingVariableName
  | unexpectedClose
  | missingClose
  | expectedForm
  | expectedSingleForm
  deriving DecidableEq, Repr

def SyntaxFault.text : SyntaxFault → String
  | unterminatedString => "unterminated string"
  | malformedGlobal word => "malformed global variable " ++ word
  | missingVariableName => "variable name expected after ?"
  | unexpectedClose => "unexpected )"
  | missingClose => "unexpected end of input, missing )"
  | expectedForm => "expected an expression"
  | expectedSingleForm => "expected a single expression"

/-- How the reading of a text ends, and on which line. -/
inductive Stop
  | atEnd (line : Nat)
  | fault (line : Nat) (cause : SyntaxFault)
  deriving DecidableEq, Repr

/-- What a text yields in order: items, each with the line reached behind it, then the end of the
text or the first fault. -/
structure Reading (α : Type) where
  items : List (α × Nat)
  stop : Stop
  deriving Repr

namespace Reading
variable {α : Type}

def cons (item : α) (line : Nat) (r : Reading α) : Reading α := ⟨(item, line) :: r.items, r.stop⟩

/-- The items without their lines. -/
def values (r : Reading α) : List α := r.items.map Prod.fst

@[simp] theorem values_cons (x : α) (line : Nat) (r : Reading α) :
    (r.cons x line).values = x :: r.values := rfl
@[simp] theorem stop_cons (x : α) (line : Nat) (r : Reading α) : (r.cons x line).stop = r.stop :=
  rfl

end Reading

namespace Token

/-- The characters that end a word. -/
def isDelimiter (c : Char) : Bool := isBlank c || c == '(' || c == ')' || c == '"' || c == ';'

def isWordChar (c : Char) : Bool := !isDelimiter c

/-- The line after a character. -/
def lineAfter (c : Char) (line : Nat) : Nat := if c = '\n' then line + 1 else line

/-- Drops blanks and comments; a comment runs from a semicolon to the end of its line. -/
def skipBlanks (inComment : Bool) : List Char → Nat → List Char × Nat
  | [], line => ([], line)
  | c :: cs, line =>
    if c = '\n' then skipBlanks false cs (line + 1)
    else if inComment then skipBlanks true cs line
    else if isBlank c then skipBlanks false cs line
    else if c = ';' then skipBlanks true cs line
    else (c :: cs, line)

/-- Reads a string behind its first quote: its text, what follows, and the line reached. A backslash
stands for the character behind it. Without a closing quote only the last line is known. -/
def stringBody : List Char → Nat → Except Nat (List Char × List Char × Nat)
  | [], line => .error line
  | '"' :: cs, line => .ok ([], cs, line)
  | ['\\'], line => .error line
  | '\\' :: c :: cs, line => (stringBody cs (lineAfter c line)).map fun r => (c :: r.1, r.2)
  | c :: cs, line => (stringBody cs (lineAfter c line)).map fun r => (c :: r.1, r.2)

/-- The name of a global variable: what stands before the final star, if that is anything. -/
def globalName? (inner : List Char) : Option (List Char) :=
  if inner.getLast? = some '*' ∧ inner.dropLast ≠ [] then some inner.dropLast else none

/-- What a word is: a variable if it starts with a question mark, else a number if it is a numeral,
else a symbol. -/
def ofWord (word : List Char) : Except SyntaxFault Token :=
  match word with
  | '?' :: '*' :: inner =>
    match globalName? inner with
    | some name => .ok (globalVar (String.ofList name))
    | none => .error (.malformedGlobal (String.ofList word))
  | ['?'] => .error .missingVariableName
  | '?' :: name => .ok (var (String.ofList name))
  | _ =>
    match Number.ofChars? word with
    | some n => .ok (atom (.ofNumber n))
    | none => .ok (atom (.symbol (String.ofList word)))

/-- One token at the front of a text, with what follows and the line reached, or the reason why
there is none. -/
inductive Scan
  | token (t : Token) (rest : List Char) (line : Nat)
  | stop (s : Stop)

/-- Takes a token off a text that starts with neither a blank nor a comment. -/
def scan : List Char → Nat → Scan
  | [], line => .stop (.atEnd line)
  | '(' :: cs, line => .token openList cs line
  | ')' :: cs, line => .token close cs line
  | '"' :: cs, line =>
    match stringBody cs line with
    | .ok (text, rest, line) => .token (atom (.string (String.ofList text))) rest line
    | .error line => .stop (.fault line .unterminatedString)
  | c :: cs, line =>
    let word := c :: cs.takeWhile isWordChar
    match word, cs.dropWhile isWordChar with
    | ['='], '(' :: rest => .token openImmediate rest line
    | word, rest =>
      match ofWord word with
      | .ok t => .token t rest line
      | .error e => .stop (.fault line e)

/-- Takes the next token off a text. -/
def next (cs : List Char) (line : Nat) : Scan :=
  let (rest, line) := skipBlanks false cs line
  scan rest line

theorem length_skipBlanks (b : Bool) (cs : List Char) (line : Nat) :
    (skipBlanks b cs line).1.length ≤ cs.length := by
  fun_induction skipBlanks b cs line <;> simp_all <;> omega

theorem length_stringBody {cs : List Char} {line : Nat} {r : List Char × List Char × Nat}
    (h : stringBody cs line = .ok r) : r.2.1.length < cs.length := by
  fun_induction stringBody cs line generalizing r with
  | case1 => simp at h
  | case2 => cases h; simp
  | case3 => simp at h
  | case4 c cs line ih =>
    cases hs : stringBody cs (lineAfter c line) with
    | error e => simp [hs, Except.map] at h
    | ok s =>
      simp only [hs, Except.map, Except.ok.injEq] at h
      subst h
      have := ih hs
      simp only [List.length_cons]
      omega
  | case5 c cs line _ _ _ ih =>
    cases hs : stringBody cs (lineAfter c line) with
    | error e => simp [hs, Except.map] at h
    | ok s =>
      simp only [hs, Except.map, Except.ok.injEq] at h
      subst h
      have := ih hs
      simp only [List.length_cons]
      omega

theorem length_dropWhile_le (p : Char → Bool) (cs : List Char) :
    (cs.dropWhile p).length ≤ cs.length :=
  (List.dropWhile_suffix p).length_le

/-- A token is at least one character long. -/
theorem length_scan {cs : List Char} {line : Nat} {t : Token} {rest : List Char} {line' : Nat}
    (h : scan cs line = .token t rest line') : rest.length < cs.length := by
  unfold scan at h
  split at h
  · simp at h
  · cases h; simp
  · cases h; simp
  · split at h
    · rename_i text rest' line'' hs
      cases h
      have := length_stringBody hs
      simp only [List.length_cons] at this ⊢
      omega
    · simp at h
  · rename_i line c cs _ _ _
    have hd := length_dropWhile_le isWordChar cs
    simp only at h
    split at h
    · rename_i hr
      cases h
      rw [hr] at hd
      simp only [List.length_cons] at hd ⊢
      omega
    · split at h
      · cases h
        simp only [List.length_cons]
        omega
      · simp at h

theorem length_next {cs : List Char} {line : Nat} {t : Token} {rest : List Char} {line' : Nat}
    (h : next cs line = .token t rest line') : rest.length < cs.length :=
  Nat.lt_of_lt_of_le (length_scan h) (length_skipBlanks false cs line)

/-- All tokens of a text. -/
def lex (cs : List Char) (line : Nat) : Reading Token :=
  match _h : next cs line with
  | .token t rest line' => (lex rest line').cons t line'
  | .stop s => ⟨[], s⟩
termination_by cs.length
decreasing_by exact length_next _h

theorem lex_of_token {cs : List Char} {line : Nat} {t : Token} {rest : List Char} {line' : Nat}
    (h : next cs line = .token t rest line') : lex cs line = (lex rest line').cons t line' := by
  rw [lex]; split <;> simp_all

theorem lex_of_stop {cs : List Char} {line : Nat} {s : Stop} (h : next cs line = .stop s) :
    lex cs line = ⟨[], s⟩ := by
  rw [lex]; split <;> simp_all

end Token

end KeyedTables
