import KeyedTables.Form.Token
import KeyedTables.Proofs.Number.Numeral

/-!
# Tokens and their spelling

A token is spelled in one way, and read back from its spelling as long as a word is followed by
something that ends it. Every token that is taken off a text can be read back, but for floating
numbers, whose spelling is another one.
-/
namespace KeyedTables

open Text

namespace Token

def chars : Token → List Char
  | openList => ['(']
  | openImmediate => ['=', '(']
  | close => [')']
  | atom a => a.chars
  | var v => '?' :: v.toList
  | globalVar g => '?' :: '*' :: (g.toList ++ ['*'])

/-- A text without delimiters that is read as a token. -/
structure IsWord (cs : List Char) (t : Token) : Prop where
  ne_nil : cs ≠ []
  wordChar : ∀ c ∈ cs, isWordChar c = true
  ofWord_eq : ofWord cs = .ok t

/-- A token is a parenthesis, a string, or the word that it is spelled as. -/
def Readable : Token → Prop
  | openList | openImmediate | close | atom (.string _) => True
  | t => IsWord t.chars t

lemma isWordChar_of_ne {c : Char} (hblank : isBlank c = false) (hopen : c ≠ '(')
    (hclose : c ≠ ')') (hquote : c ≠ '"') (hcomment : c ≠ ';') : isWordChar c = true := by
  simp [isWordChar, isDelimiter, hblank, hopen, hclose, hquote, hcomment]

lemma isNumeralChar_of_blankCodes : ∀ n ∈ blankCodes, isNumeralChar (Char.ofNat n) = false := by
  decide

lemma isWordChar_of_isNumeralChar {c : Char} (h : isNumeralChar c = true) :
    isWordChar c = true := by
  have hblank : isBlank c = false := by
    refine Bool.eq_false_iff.2 fun hc => ?_
    have hnot := isNumeralChar_of_blankCodes c.toNat (List.contains_iff_mem.1 hc)
    rw [Char.ofNat_toNat, h] at hnot
    cases hnot
  have hne : ∀ d : Char, isNumeralChar d = false → c ≠ d := by
    rintro d hd rfl
    rw [h] at hd
    cases hd
  exact isWordChar_of_ne hblank (hne '(' rfl) (hne ')' rfl) (hne '"' rfl) (hne ';' rfl)

lemma head_ne_of_isNumeralChar {cs : List Char} (h : ∀ c ∈ cs, isNumeralChar c = true) :
    cs.head? ≠ some '?' := by
  intro hhead
  cases h '?' (List.mem_of_head? hhead)

lemma ofWord_of_head_ne {cs : List Char} (h : cs.head? ≠ some '?') :
    ofWord cs =
      match Number.ofChars? cs with
      | some n => .ok (atom (.ofNumber n))
      | none => .ok (atom (.symbol (String.ofList cs))) := by
  unfold ofWord
  split
  · exact absurd rfl h
  · exact absurd rfl h
  · exact absurd rfl h
  · rfl

/-- Behind a question mark stands the name of a variable, or that of a global variable between two
stars. -/
theorem variable_of_ofWord {name : List Char} {t : Token} (h : ofWord ('?' :: name) = .ok t) :
    t = var (String.ofList name) ∨
      ∃ g, name = '*' :: (g ++ ['*']) ∧ t = globalVar (String.ofList g) := by
  unfold ofWord at h
  split at h
  · rename_i inner hname
    cases hname
    split at h
    · rename_i g hg
      cases h
      unfold globalName? at hg
      split at hg
      · rename_i hlast
        cases hg
        obtain ⟨g, rfl⟩ := List.getLast?_eq_some_iff.1 hlast.1
        exact Or.inr ⟨g, rfl, by rw [List.dropLast_concat]⟩
      · cases hg
    · cases h
  · cases h
  · rename_i hname
    cases hname
    cases h
    exact Or.inl rfl
  · rename_i hnot
    exact absurd rfl (hnot name)

/-- A word that is a numeral is read as the number. -/
theorem ofWord_of_number {cs : List Char} {n : Number} (h : Number.ofChars? cs = some n) :
    ofWord cs = .ok (atom (.ofNumber n)) := by
  rw [ofWord_of_head_ne (head_ne_of_isNumeralChar (Number.isNumeralChar_of_ofChars? h)), h]

lemma readable_integer (i : Int64) : Readable (atom (.integer i)) := by
  have h := Number.ofChars?_intChars i
  refine ⟨?_, fun c hc => ?_, ofWord_of_number h⟩
  · intro hnil
    change intChars i.toInt = [] at hnil
    rw [hnil] at h
    cases h
  · exact isWordChar_of_isNumeralChar (Number.isNumeralChar_of_ofChars? h c hc)

/-- What a word is read as is spelled as this word again, unless it is a number. -/
theorem chars_of_ofWord {cs : List Char} {t : Token} (h : ofWord cs = .ok t) :
    (∃ n, t = atom (.ofNumber n)) ∨ t.chars = cs := by
  by_cases hhead : cs.head? = some '?'
  · obtain ⟨name, rfl⟩ := List.head?_eq_some_iff.1 hhead
    refine Or.inr ?_
    obtain rfl | ⟨g, rfl, rfl⟩ := variable_of_ofWord h
    · rw [chars, String.toList_ofList]
    · rw [chars, String.toList_ofList]
  · rw [ofWord_of_head_ne hhead] at h
    cases hn : Number.ofChars? cs with
    | some n =>
      rw [hn] at h
      cases h
      exact Or.inl ⟨n, rfl⟩
    | none =>
      rw [hn] at h
      cases h
      exact Or.inr String.toList_ofList

/-- What a word is read as can be read back, unless it is a floating number. -/
theorem readable_of_ofWord {cs : List Char} {t : Token} (hne : cs ≠ [])
    (hword : ∀ c ∈ cs, isWordChar c = true) (h : ofWord cs = .ok t) :
    t.Readable ∨ ∃ x, t = atom (.float x) := by
  obtain ⟨n, rfl⟩ | hchars := chars_of_ofWord h
  · cases n with
    | integer i => exact Or.inl (readable_integer i)
    | float x => exact Or.inr ⟨x, rfl⟩
  · have hisWord : IsWord t.chars t := hchars ▸ ⟨hne, hword, h⟩
    refine Or.inl ?_
    cases t with
    | openList | openImmediate | close => trivial
    | var v => exact hisWord
    | globalVar g => exact hisWord
    | atom a =>
      cases a with
      | string s => trivial
      | symbol s => exact hisWord
      | integer i => exact hisWord
      | float x => exact hisWord

lemma ofWord_eq_symbol_iff {cs : List Char} {s : String} :
    ofWord cs = .ok (atom (.symbol s)) ↔
      cs.head? ≠ some '?' ∧ Number.ofChars? cs = none ∧ String.ofList cs = s := by
  constructor
  · intro h
    have hhead : cs.head? ≠ some '?' := by
      intro hhead
      obtain ⟨name, rfl⟩ := List.head?_eq_some_iff.1 hhead
      obtain heq | ⟨g, _, heq⟩ := variable_of_ofWord h <;> cases heq
    rw [ofWord_of_head_ne hhead] at h
    cases hn : Number.ofChars? cs with
    | some n =>
      rw [hn] at h
      cases n <;> cases h
    | none =>
      rw [hn] at h
      cases h
      exact ⟨hhead, rfl, rfl⟩
  · rintro ⟨hhead, hnone, rfl⟩
    rw [ofWord_of_head_ne hhead, hnone]

/-- A symbol is read back if it is a word, and neither a variable nor a numeral. -/
theorem readable_symbol_iff {s : String} :
    Readable (atom (.symbol s)) ↔ s.toList ≠ [] ∧ (∀ c ∈ s.toList, isWordChar c = true) ∧
      s.toList.head? ≠ some '?' ∧ Number.ofChars? s.toList = none := by
  constructor
  · rintro ⟨hne, hword, hof⟩
    obtain ⟨hhead, hnone, _⟩ := ofWord_eq_symbol_iff.1 hof
    exact ⟨hne, hword, hhead, hnone⟩
  · rintro ⟨hne, hword, hhead, hnone⟩
    exact ⟨hne, hword, ofWord_eq_symbol_iff.2 ⟨hhead, hnone, String.ofList_toList⟩⟩

/-- Symbols joined by two colons are a symbol. -/
theorem readable_join {owner name : String} (howner : Readable (atom (.symbol owner)))
    (hname : Readable (atom (.symbol name))) :
    Readable (atom (.symbol (owner ++ "::" ++ name))) := by
  obtain ⟨hne, hword, hhead, _⟩ := readable_symbol_iff.1 howner
  obtain ⟨_, hword', _, _⟩ := readable_symbol_iff.1 hname
  have hchars : (owner ++ "::" ++ name).toList = owner.toList ++ ':' :: ':' :: name.toList := by
    simp
  rw [readable_symbol_iff, hchars]
  refine ⟨by simp, ?_, ?_, ?_⟩
  · rw [List.forall_mem_append, List.forall_mem_cons, List.forall_mem_cons]
    exact ⟨hword, rfl, rfl, hword'⟩
  · obtain ⟨c, cs, hcons⟩ := List.exists_cons_of_ne_nil hne
    rw [hcons] at hhead ⊢
    exact hhead
  · cases hnumber : Number.ofChars? (owner.toList ++ ':' :: ':' :: name.toList) with
    | none => rfl
    | some n => cases Number.isNumeralChar_of_ofChars? hnumber ':' (by simp)

/-- Behind a text like this a word has ended. -/
def Separated (rest : List Char) : Prop :=
  ∀ c, rest.head? = some c → isDelimiter c = true ∧ c ≠ '('

/-- In front of the rest of a text, these characters are the given tokens. -/
def Lexes (cs : List Char) (ts : List Token) (rest : List Char) : Prop :=
  ∀ line, ∃ items line', items.map Prod.fst = ts ∧
    lex (cs ++ rest) line = ⟨items ++ (lex rest line').items, (lex rest line').stop⟩

theorem Lexes.nil (rest : List Char) : Lexes [] [] rest := fun line => ⟨[], line, rfl, rfl⟩

theorem Lexes.append {cs cs' : List Char} {ts ts' : List Token} {rest : List Char}
    (h : Lexes cs ts (cs' ++ rest)) (h' : Lexes cs' ts' rest) :
    Lexes (cs ++ cs') (ts ++ ts') rest := by
  intro line
  obtain ⟨items, line₁, hitems, hlex⟩ := h line
  obtain ⟨items', line₂, hitems', hlex'⟩ := h' line₁
  refine ⟨items ++ items', line₂, by rw [List.map_append, hitems, hitems'], ?_⟩
  rw [List.append_assoc, hlex, hlex', List.append_assoc]

lemma Lexes.of_next {cs : List Char} {t : Token} {rest : List Char}
    (h : ∀ line, ∃ line', next (cs ++ rest) line = .token t rest line') : Lexes cs [t] rest := by
  intro line
  obtain ⟨line', hnext⟩ := h line
  exact ⟨[(t, line')], line', rfl, lex_of_token hnext⟩

lemma skipBlanks_cons_of_not_blank {c : Char} (hblank : isBlank c = false) (hc : c ≠ ';')
    (cs : List Char) (line : Nat) : skipBlanks false (c :: cs) line = (c :: cs, line) := by
  have hnewline : c ≠ '\n' := by
    rintro rfl
    cases hblank
  rw [skipBlanks, if_neg hnewline, if_neg (by decide), hblank, if_neg (by decide), if_neg hc]

lemma next_cons {c : Char} (hblank : isBlank c = false) (hc : c ≠ ';') (cs : List Char)
    (line : Nat) : next (c :: cs) line = scan (c :: cs) line := by
  rw [next, skipBlanks_cons_of_not_blank hblank hc]

/-- A blank in front of a text is no token. -/
theorem next_blank {b : Char} (hblank : isBlank b = true) (cs : List Char) (line : Nat) :
    next (b :: cs) line = next cs (lineAfter b line) := by
  have hskip : skipBlanks false (b :: cs) line = skipBlanks false cs (lineAfter b line) := by
    rw [skipBlanks, lineAfter]
    split
    · rfl
    · rfl
  rw [next, next, hskip]

theorem Lexes.blank {b : Char} (hblank : isBlank b = true) (rest : List Char) :
    Lexes [b] [] rest := by
  intro line
  refine ⟨[], lineAfter b line, rfl, ?_⟩
  change lex (b :: rest) line = lex rest (lineAfter b line)
  cases hnext : next rest (lineAfter b line) with
  | token t rest' line' =>
    rw [lex_of_token hnext, lex_of_token ((next_blank hblank rest line).trans hnext)]
  | stop s => rw [lex_of_stop hnext, lex_of_stop ((next_blank hblank rest line).trans hnext)]

theorem Lexes.blanks {bs : List Char} (hblank : ∀ b ∈ bs, isBlank b = true) (rest : List Char) :
    Lexes bs [] rest := by
  induction bs with
  | nil => exact .nil rest
  | cons b bs ih =>
    obtain ⟨hb, hbs⟩ := List.forall_mem_cons.1 hblank
    exact (Lexes.blank hb (bs ++ rest)).append (ih hbs)

theorem Lexes.openList (rest : List Char) : Lexes ['('] [.openList] rest :=
  .of_next fun line => ⟨line, next_cons (by decide) (by decide) rest line⟩

theorem Lexes.close (rest : List Char) : Lexes [')'] [.close] rest :=
  .of_next fun line => ⟨line, next_cons (by decide) (by decide) rest line⟩

/-- An equals sign and a parenthesis are taken together. -/
theorem Lexes.openImmediate (rest : List Char) : Lexes ['=', '('] [.openImmediate] rest :=
  .of_next fun line => ⟨line, next_cons (by decide) (by decide) _ line⟩

/-- The escaped text of a string is read as the text. -/
theorem stringBody_escape (cs rest : List Char) (line : Nat) :
    ∃ line', stringBody (escape cs ++ '"' :: rest) line = .ok (cs, rest, line') := by
  induction cs generalizing line with
  | nil => exact ⟨line, rfl⟩
  | cons c cs ih =>
    obtain ⟨line', h⟩ := ih (lineAfter c line)
    refine ⟨line', ?_⟩
    rw [escape_cons, escapeChar]
    split
    · change stringBody ('\\' :: c :: (escape cs ++ '"' :: rest)) line = _
      rw [stringBody, h]
      rfl
    · rename_i hc
      obtain ⟨hquote, hbackslash⟩ := not_or.1 hc
      change stringBody (c :: (escape cs ++ '"' :: rest)) line = _
      rw [stringBody, h]
      · rfl
      · exact hquote
      · exact fun heq _ => hbackslash heq
      · exact fun _ _ heq _ => hbackslash heq

theorem scan_quote (cs : List Char) (line : Nat) :
    scan ('"' :: cs) line =
      match stringBody cs line with
      | .ok (text, rest, line) => .token (.atom (.string (String.ofList text))) rest line
      | .error line => .stop (.fault line .unterminatedString) := rfl

lemma Lexes.string (s : String) (rest : List Char) :
    Lexes (quote s.toList) [.atom (.string s)] rest := by
  refine .of_next fun line => ?_
  obtain ⟨line', h⟩ := stringBody_escape s.toList rest line
  refine ⟨line', ?_⟩
  change next ('"' :: ((escape s.toList ++ ['"']) ++ rest)) line = _
  rw [next_cons (by decide) (by decide), List.append_assoc, List.singleton_append, scan_quote, h]
  dsimp only
  rw [String.ofList_toList]

lemma takeWhile_of_separated {rest : List Char} (h : Separated rest) :
    rest.takeWhile isWordChar = [] ∧ rest.dropWhile isWordChar = rest := by
  cases rest with
  | nil => exact ⟨rfl, rfl⟩
  | cons c cs =>
    have hc : ¬ isWordChar c = true := by
      rw [isWordChar, (h c rfl).1]
      decide
    exact ⟨List.takeWhile_cons_of_neg hc, List.dropWhile_cons_of_neg hc⟩

lemma not_isDelimiter_of_isWordChar {c : Char} (h : isWordChar c = true) :
    isDelimiter c = false := by
  simpa [isWordChar] using h

lemma ne_of_isWordChar {c d : Char} (h : isWordChar c = true) (hd : isDelimiter d = true) :
    c ≠ d := by
  rintro rfl
  rw [not_isDelimiter_of_isWordChar h] at hd
  cases hd

/-- What is neither a parenthesis nor a quote begins a word, or the mark. -/
theorem scan_cons {c : Char} {cs : List Char} (hopen : c ≠ '(') (hclose : c ≠ ')')
    (hquote : c ≠ '"') (line : Nat) :
    scan (c :: cs) line =
      match c :: cs.takeWhile isWordChar, cs.dropWhile isWordChar with
      | ['='], '(' :: rest => .token .openImmediate rest line
      | word, rest =>
        match ofWord word with
        | .ok t => .token t rest line
        | .error e => .stop (.fault line e) := by
  rw [scan] <;> first | rfl | assumption

/-- An equals sign alone with a parenthesis behind it is the mark. -/
theorem scan_mark {c : Char} {cs rest : List Char} (hword : c :: cs.takeWhile isWordChar = ['='])
    (hrest : cs.dropWhile isWordChar = '(' :: rest) (line : Nat) :
    scan (c :: cs) line = .token .openImmediate rest line := by
  obtain ⟨rfl, htake⟩ := List.cons_eq_cons.1 hword
  rw [scan_cons (by decide) (by decide) (by decide), htake, hrest]
  rfl

theorem scan_word {c : Char} {cs : List Char} (hopen : c ≠ '(') (hclose : c ≠ ')')
    (hquote : c ≠ '"')
    (hmark : ∀ rest, c :: cs.takeWhile isWordChar = ['='] → cs.dropWhile isWordChar ≠ '(' :: rest)
    (line : Nat) :
    scan (c :: cs) line =
      match ofWord (c :: cs.takeWhile isWordChar) with
      | .ok t => .token t (cs.dropWhile isWordChar) line
      | .error e => .stop (.fault line e) := by
  rw [scan_cons hopen hclose hquote]
  split
  · rename_i hword hrest
    exact absurd hrest (hmark _ hword)
  · rfl

lemma IsWord.scan_append {cs : List Char} {t : Token} (h : IsWord cs t) {rest : List Char}
    (hrest : Separated rest) (line : Nat) : scan (cs ++ rest) line = .token t rest line := by
  obtain ⟨hne, hword, hof⟩ := h
  cases cs with
  | nil => exact absurd rfl hne
  | cons c cs =>
    obtain ⟨hc, hcs⟩ := List.forall_mem_cons.1 hword
    obtain ⟨htake, hdrop⟩ := takeWhile_of_separated hrest
    have htake : (cs ++ rest).takeWhile isWordChar = cs := by
      rw [List.takeWhile_append_of_pos hcs, htake, List.append_nil]
    have hdrop : (cs ++ rest).dropWhile isWordChar = rest := by
      rw [List.dropWhile_append_of_pos hcs, hdrop]
    rw [List.cons_append, scan_word (ne_of_isWordChar hc rfl) (ne_of_isWordChar hc rfl)
      (ne_of_isWordChar hc rfl), htake, hdrop, hof]
    intro rest' _ heq
    rw [hdrop] at heq
    exact (hrest '(' (by rw [heq]; rfl)).2 rfl

lemma Lexes.word {cs : List Char} {t : Token} (h : IsWord cs t) {rest : List Char}
    (hrest : Separated rest) : Lexes cs [t] rest := by
  refine .of_next fun line => ⟨line, ?_⟩
  rw [← h.scan_append hrest line]
  obtain ⟨hne, hword, _⟩ := h
  cases cs with
  | nil => exact absurd rfl hne
  | cons c cs =>
    have hc := hword c List.mem_cons_self
    have hblank : isBlank c = false := by
      have := not_isDelimiter_of_isWordChar hc
      simp only [isDelimiter, Bool.or_eq_false_iff] at this
      exact this.1.1.1.1
    exact next_cons hblank (ne_of_isWordChar hc rfl) _ line

/-- A readable token is read back from its spelling, if what follows ends a word. -/
theorem Readable.lexes {t : Token} (h : t.Readable) {rest : List Char} (hrest : Separated rest) :
    Lexes t.chars [t] rest := by
  cases t with
  | openList => exact .openList rest
  | openImmediate => exact .openImmediate rest
  | close => exact .close rest
  | var v => exact .word h hrest
  | globalVar g => exact .word h hrest
  | atom a =>
    cases a with
    | string s => exact .string s rest
    | symbol s => exact .word h hrest
    | integer i => exact .word h hrest
    | float x => exact .word h hrest

/-- Behind blanks and comments there is neither. -/
theorem head_of_skipBlanks {inComment : Bool} {cs : List Char} {line : Nat} {c : Char}
    {rest : List Char} (h : (skipBlanks inComment cs line).1 = c :: rest) :
    isBlank c = false ∧ c ≠ ';' := by
  fun_induction skipBlanks inComment cs line with
  | case1 => cases h
  | case2 _ _ _ ih => exact ih h
  | case3 _ _ _ _ ih => exact ih h
  | case4 _ _ _ _ _ _ _ ih => exact ih h
  | case5 _ _ _ _ _ _ ih => exact ih h
  | case6 inComment line c' cs _ _ hblank hc =>
    cases h
    exact ⟨Bool.eq_false_iff.2 hblank, hc⟩

lemma readable_of_next {cs : List Char} {line : Nat} {t : Token} {rest : List Char} {line' : Nat}
    (h : next cs line = .token t rest line') : t.Readable ∨ ∃ x, t = atom (.float x) := by
  unfold next at h
  dsimp only at h
  cases hskip : (skipBlanks false cs line).1 with
  | nil =>
    rw [hskip] at h
    cases h
  | cons c cs' =>
    obtain ⟨hblank, hc⟩ := head_of_skipBlanks hskip
    rw [hskip] at h
    by_cases hopen : c = '('
    · subst hopen
      cases h
      exact Or.inl trivial
    by_cases hclose : c = ')'
    · subst hclose
      cases h
      exact Or.inl trivial
    by_cases hquote : c = '"'
    · subst hquote
      rw [scan_quote] at h
      split at h
      · cases h
        exact Or.inl trivial
      · cases h
    rw [scan_cons hopen hclose hquote] at h
    split at h
    · cases h
      exact Or.inl trivial
    · split at h
      · rename_i hof
        cases h
        refine readable_of_ofWord (List.cons_ne_nil _ _) (List.forall_mem_cons.2 ⟨?_, ?_⟩) hof
        · exact isWordChar_of_ne hblank hopen hclose hquote hc
        · exact List.all_eq_true.1 List.all_takeWhile
      · cases h

/-- Every token of a text can be read back, but for floating numbers. -/
theorem readable_of_mem_lex {cs : List Char} {line : Nat} {t : Token}
    (h : t ∈ (lex cs line).values) : t.Readable ∨ ∃ x, t = atom (.float x) := by
  fun_induction lex cs line with
  | case1 cs line t' rest line' hnext ih =>
    obtain rfl | h := List.mem_cons.1 h
    · exact readable_of_next hnext
    · exact ih h
  | case2 => cases h

end Token

end KeyedTables
