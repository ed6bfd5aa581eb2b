import KeyedTables.Proofs.Form.Nesting

/-!
# Texts joined by a line break

Behind a text that is read, and a line break, another text is read as if it stood alone: its forms
come behind those of the first one, and its faults are the same, so many lines further down as the
first text has. A line break ends whatever the first text ends in, a word, an equals sign or a
comment, and wherever line breaks stand they are counted, also within comments and strings.
-/
namespace KeyedTables

def Stop.down (k : Nat) : Stop → Stop
  | atEnd line => atEnd (line + k)
  | fault line cause => fault (line + k) cause

namespace Reading
variable {α : Type}

/-- The same reading so many lines further down. -/
def down (k : Nat) (r : Reading α) : Reading α :=
  ⟨r.items.map fun item => (item.1, item.2 + k), r.stop.down k⟩

def append (r s : Reading α) : Reading α := ⟨r.items ++ s.items, s.stop⟩

@[simp] theorem stop_down (k : Nat) (r : Reading α) : (r.down k).stop = r.stop.down k := rfl

@[simp] theorem values_down (k : Nat) (r : Reading α) : (r.down k).values = r.values := by
  rw [values, values, down, List.map_map]
  rfl

lemma down_cons (k : Nat) (x : α) (line : Nat) (r : Reading α) :
    (r.cons x line).down k = (r.down k).cons x (line + k) := rfl

@[simp] theorem stop_append (r s : Reading α) : (r.append s).stop = s.stop := rfl

@[simp] theorem values_append (r s : Reading α) : (r.append s).values = r.values ++ s.values :=
  List.map_append

lemma append_cons (x : α) (line : Nat) (r s : Reading α) :
    (r.cons x line).append s = (r.append s).cons x line := rfl

end Reading

namespace Token

open Text

def Scan.down (k : Nat) : Scan → Scan
  | token t rest line => token t rest (line + k)
  | stop s => stop (s.down k)

lemma lineAfter_add (c : Char) (line k : Nat) :
    lineAfter c (line + k) = lineAfter c line + k := by
  unfold lineAfter
  split
  · exact Nat.add_right_comm line k 1
  · rfl

lemma skipBlanks_add (inComment : Bool) (cs : List Char) (line k : Nat) :
    skipBlanks inComment cs (line + k) =
      ((skipBlanks inComment cs line).1, (skipBlanks inComment cs line).2 + k) := by
  fun_induction skipBlanks inComment cs line with
  | case1 => rfl
  | case2 inComment cs line ih => rw [skipBlanks, if_pos rfl, Nat.add_right_comm, ih]
  | case3 c cs line hc ih => rw [skipBlanks, if_neg hc, if_pos rfl, ih]
  | case4 inComment c cs line hc hcomment hblank ih =>
    rw [skipBlanks, if_neg hc, if_neg hcomment, if_pos hblank, ih]
  | case5 inComment cs line hcomment hc hblank ih =>
    rw [skipBlanks, if_neg hc, if_neg hcomment, if_neg hblank, if_pos rfl, ih]
  | case6 inComment c cs line hc hcomment hblank hsemicolon =>
    rw [skipBlanks, if_neg hc, if_neg hcomment, if_neg hblank, if_neg hsemicolon]

lemma stringBody_add (cs : List Char) (line k : Nat) :
    stringBody cs (line + k) =
      match stringBody cs line with
      | .ok (text, rest, line') => .ok (text, rest, line' + k)
      | .error line' => .error (line' + k) := by
  fun_induction stringBody cs line with
  | case1 | case2 | case3 => rfl
  | case4 c cs line ih =>
    rw [stringBody, lineAfter_add, ih]
    cases stringBody cs (lineAfter c line) <;> rfl
  | case5 c cs line hquote hend hbackslash ih =>
    rw [stringBody, lineAfter_add, ih]
    · cases stringBody cs (lineAfter c line) <;> rfl
    · exact hquote
    · exact hend
    · exact hbackslash

lemma scan_add (cs : List Char) (line k : Nat) : scan cs (line + k) = (scan cs line).down k := by
  fun_cases scan cs line with
  | case1 | case2 | case3 => rfl
  | case4 cs _ text rest line' hstring =>
    rw [scan_quote, stringBody_add, hstring]
    rfl
  | case5 cs _ line' hstring =>
    rw [scan_quote, stringBody_add, hstring]
    rfl
  | case6 c cs _ hopen hclose hquote word rest hrest hword => exact scan_mark hword hrest _
  | case7 c cs _ hopen hclose hquote word t hof hmark =>
    rw [scan_word hopen hclose hquote hmark, hof]
    rfl
  | case8 c cs _ hopen hclose hquote word e hof hmark =>
    rw [scan_word hopen hclose hquote hmark, hof]
    rfl

lemma next_add (cs : List Char) (line k : Nat) : next cs (line + k) = (next cs line).down k := by
  rw [next, skipBlanks_add]
  exact scan_add _ _ k

/-- A text further down has the same tokens further down. -/
theorem lex_add (cs : List Char) (line k : Nat) : lex cs (line + k) = (lex cs line).down k := by
  fun_induction lex cs line with
  | case1 cs line t rest line' hnext ih =>
    have hdown := next_add cs line k
    rw [hnext] at hdown
    rw [lex_of_token hdown, ih, Reading.down_cons]
  | case2 cs line s hnext =>
    have hdown := next_add cs line k
    rw [hnext] at hdown
    rw [lex_of_stop hdown]
    rfl

lemma lineAfter_add_count (c : Char) (cs : List Char) (line : Nat) :
    lineAfter c line + cs.count '\n' = line + (c :: cs).count '\n' := by
  rw [List.count_cons, lineAfter]
  by_cases hc : c = '\n'
  · rw [if_pos hc, if_pos (beq_iff_eq.2 hc)]
    omega
  · rw [if_neg hc, if_neg (fun h => hc (beq_iff_eq.1 h))]
    omega

lemma line_skipBlanks (inComment : Bool) (cs : List Char) (line : Nat) :
    (skipBlanks inComment cs line).2 + (skipBlanks inComment cs line).1.count '\n' =
      line + cs.count '\n' := by
  fun_induction skipBlanks inComment cs line with
  | case1 => rfl
  | case2 inComment cs line ih => rw [ih, List.count_cons_self, Nat.add_right_comm, Nat.add_assoc]
  | case3 c cs line hc ih => rw [ih, List.count_cons_of_ne hc]
  | case4 inComment c cs line hc _ _ ih => rw [ih, List.count_cons_of_ne hc]
  | case5 inComment cs line _ hc _ ih => rw [ih, List.count_cons_of_ne hc]
  | case6 => rfl

/-- A string whose first character is taken off goes on with the others. -/
theorem exists_of_map_cons {c : Char} {x : Except Nat (List Char × List Char × Nat)}
    {text rest : List Char} {line : Nat}
    (h : (x.map fun r => (c :: r.1, r.2)) = .ok (text, rest, line)) :
    ∃ text', text = c :: text' ∧ x = .ok (text', rest, line) := by
  cases x with
  | error e => cases h
  | ok r =>
    obtain ⟨text', rest', line'⟩ := r
    cases h
    exact ⟨text', rfl, rfl⟩

lemma line_stringBody {cs text rest : List Char} {line line' : Nat}
    (h : stringBody cs line = .ok (text, rest, line')) :
    line' + rest.count '\n' = line + cs.count '\n' := by
  fun_induction stringBody cs line generalizing text with
  | case1 | case3 => cases h
  | case2 =>
    cases h
    rw [List.count_cons_of_ne (by decide)]
  | case4 c cs line ih =>
    obtain ⟨text', _, hrest⟩ := exists_of_map_cons h
    have hbackslash : ('\\' :: c :: cs).count '\n' = (c :: cs).count '\n' :=
      List.count_cons_of_ne (by decide)
    rw [ih hrest, lineAfter_add_count, hbackslash]
  | case5 c cs line _ _ _ ih =>
    obtain ⟨text', _, hrest⟩ := exists_of_map_cons h
    rw [ih hrest, lineAfter_add_count]

/-- There is no line break in a word. -/
theorem count_dropWhile (cs : List Char) :
    (cs.dropWhile isWordChar).count '\n' = cs.count '\n' := by
  have hword : '\n' ∉ cs.takeWhile isWordChar := fun h => by
    cases List.all_eq_true.1 List.all_takeWhile _ h
  have hcount := congrArg (List.count '\n')
    (List.takeWhile_append_dropWhile (p := isWordChar) (l := cs))
  rwa [List.count_append, List.count_eq_zero.2 hword, Nat.zero_add] at hcount

/-- The lines counted so far and those still to come are all lines. -/
theorem line_scan {cs rest : List Char} {t : Token} {line line' : Nat}
    (hhead : cs.head? ≠ some '\n') (h : scan cs line = .token t rest line') :
    line' + rest.count '\n' = line + cs.count '\n' := by
  revert h
  fun_cases scan cs line with
  | case1 | case5 | case8 => rintro ⟨⟩
  | case2 | case3 =>
    rintro ⟨⟩
    rw [List.count_cons_of_ne (by decide)]
  | case4 cs _ text rest' line'' hstring =>
    rintro ⟨⟩
    rw [line_stringBody hstring, List.count_cons_of_ne (by decide)]
  | case6 c cs _ hopen hclose hquote word rest' hrest hword =>
    rintro ⟨⟩
    have hcount := count_dropWhile cs
    rw [hrest, List.count_cons_of_ne (by decide)] at hcount
    rw [hcount, List.count_cons_of_ne fun hc => hhead (congrArg some hc)]
  | case7 c cs _ hopen hclose hquote word t' hof hmark =>
    rintro ⟨⟩
    rw [count_dropWhile, List.count_cons_of_ne fun hc => hhead (congrArg some hc)]

lemma line_next {cs rest : List Char} {t : Token} {line line' : Nat}
    (h : next cs line = .token t rest line') :
    line' + rest.count '\n' = line + cs.count '\n' := by
  have hskip := line_skipBlanks false cs line
  have hscan : scan (skipBlanks false cs line).1 (skipBlanks false cs line).2 =
      .token t rest line' := h
  rw [← hskip]
  refine line_scan (fun hhead => ?_) hscan
  obtain ⟨rest', hrest⟩ := List.head?_eq_some_iff.1 hhead
  have hblank := (head_of_skipBlanks hrest).1
  rw [isBlank_newline] at hblank
  cases hblank

/-- Nothing but the end of a text ends the tokens without a fault. -/
theorem scan_eq_atEnd {cs : List Char} {line last : Nat} (h : scan cs line = .stop (.atEnd last)) :
    cs = [] ∧ line = last := by
  revert h
  fun_cases scan cs line with
  | case1 =>
    rintro ⟨⟩
    exact ⟨rfl, rfl⟩
  | case2 | case3 | case4 | case5 | case6 | case7 | case8 => rintro ⟨⟩

lemma skipBlanks_of_next_atEnd {cs : List Char} {line last : Nat}
    (h : next cs line = .stop (.atEnd last)) : skipBlanks false cs line = ([], last) := by
  obtain ⟨hrest, hline⟩ := scan_eq_atEnd h
  exact Prod.ext hrest hline

/-- The last line of a text is told by its line breaks. -/
theorem last_lex {cs : List Char} {line last : Nat} (h : (lex cs line).stop = .atEnd last) :
    last = line + cs.count '\n' := by
  fun_induction lex cs line with
  | case1 cs line t rest line' hnext ih =>
    rw [ih h, line_next hnext]
  | case2 cs line s hnext =>
    cases h
    have hskip := line_skipBlanks false cs line
    rwa [skipBlanks_of_next_atEnd hnext] at hskip

section More
variable {cs rest : List Char} {line line' : Nat} (more : List Char)

/-- Blanks and comments that reach up to the end end with the line. -/
theorem skipBlanks_append_of_nil {inComment : Bool}
    (h : skipBlanks inComment cs line = ([], line')) :
    skipBlanks inComment (cs ++ '\n' :: more) line = skipBlanks false more (line' + 1) := by
  fun_induction skipBlanks inComment cs line with
  | case1 inComment line =>
    cases h
    rw [List.nil_append, skipBlanks, if_pos rfl]
  | case2 inComment cs line ih => rw [List.cons_append, skipBlanks, if_pos rfl, ih h]
  | case3 c cs line hc ih => rw [List.cons_append, skipBlanks, if_neg hc, if_pos rfl, ih h]
  | case4 inComment c cs line hc hcomment hblank ih =>
    rw [List.cons_append, skipBlanks, if_neg hc, if_neg hcomment, if_pos hblank, ih h]
  | case5 inComment cs line hcomment hc hblank ih =>
    rw [List.cons_append, skipBlanks, if_neg hc, if_neg hcomment, if_neg hblank, if_pos rfl, ih h]
  | case6 => cases h

lemma skipBlanks_append_of_cons {inComment : Bool} {c : Char}
    (h : skipBlanks inComment cs line = (c :: rest, line')) :
    skipBlanks inComment (cs ++ more) line = (c :: rest ++ more, line') := by
  fun_induction skipBlanks inComment cs line with
  | case1 => cases h
  | case2 inComment cs line ih => rw [List.cons_append, skipBlanks, if_pos rfl, ih h]
  | case3 c cs line hc ih => rw [List.cons_append, skipBlanks, if_neg hc, if_pos rfl, ih h]
  | case4 inComment c cs line hc hcomment hblank ih =>
    rw [List.cons_append, skipBlanks, if_neg hc, if_neg hcomment, if_pos hblank, ih h]
  | case5 inComment cs line hcomment hc hblank ih =>
    rw [List.cons_append, skipBlanks, if_neg hc, if_neg hcomment, if_neg hblank, if_pos rfl, ih h]
  | case6 inComment c cs line hc hcomment hblank hsemicolon =>
    cases h
    rw [List.cons_append, skipBlanks, if_neg hc, if_neg hcomment, if_neg hblank, if_neg hsemicolon]

lemma stringBody_append {text : List Char} (h : stringBody cs line = .ok (text, rest, line')) :
    stringBody (cs ++ more) line = .ok (text, rest ++ more, line') := by
  fun_induction stringBody cs line generalizing text with
  | case1 | case3 => cases h
  | case2 =>
    cases h
    rfl
  | case4 c cs line ih =>
    obtain ⟨text', rfl, hrest⟩ := exists_of_map_cons h
    rw [List.cons_append, List.cons_append, stringBody, ih hrest]
    rfl
  | case5 c cs line hquote hend hbackslash ih =>
    have hc : c ≠ '\\' := by
      intro hc
      cases cs with
      | nil => exact hend hc rfl
      | cons d ds => exact hbackslash d ds hc rfl
    obtain ⟨text', rfl, hrest⟩ := exists_of_map_cons h
    rw [List.cons_append, stringBody, ih hrest]
    · rfl
    · exact hquote
    · exact fun heq _ => hc heq
    · exact fun _ _ heq _ => hc heq

/-- A word ends before a line break. -/
theorem span_append_newline (cs : List Char) :
    (cs ++ '\n' :: more).takeWhile isWordChar = cs.takeWhile isWordChar ∧
      (cs ++ '\n' :: more).dropWhile isWordChar = cs.dropWhile isWordChar ++ '\n' :: more := by
  induction cs with
  | nil => exact ⟨List.takeWhile_cons_of_neg (by decide), List.dropWhile_cons_of_neg (by decide)⟩
  | cons c cs ih =>
    obtain ⟨htake, hdrop⟩ := ih
    rw [List.cons_append]
    by_cases hc : isWordChar c = true
    · rw [List.takeWhile_cons_of_pos hc, List.takeWhile_cons_of_pos hc,
        List.dropWhile_cons_of_pos hc, List.dropWhile_cons_of_pos hc, htake, hdrop]
      exact ⟨rfl, rfl⟩
    · rw [List.takeWhile_cons_of_neg hc, List.takeWhile_cons_of_neg hc,
        List.dropWhile_cons_of_neg hc, List.dropWhile_cons_of_neg hc]
      exact ⟨rfl, rfl⟩

lemma scan_append_newline {t : Token} (h : scan cs line = .token t rest line') :
    scan (cs ++ '\n' :: more) line = .token t (rest ++ '\n' :: more) line' := by
  revert h
  fun_cases scan cs line with
  | case1 | case5 | case8 => rintro ⟨⟩
  | case2 | case3 =>
    rintro ⟨⟩
    rfl
  | case4 cs _ text rest' line'' hstring =>
    rintro ⟨⟩
    rw [List.cons_append, scan_quote, stringBody_append _ hstring]
  | case6 c cs _ hopen hclose hquote word rest' hrest hword =>
    rintro ⟨⟩
    obtain ⟨htake, hdrop⟩ := span_append_newline more cs
    rw [List.cons_append]
    refine scan_mark ?_ ?_ line
    · rw [htake]
      exact hword
    · rw [hdrop, hrest, List.cons_append]
  | case7 c cs _ hopen hclose hquote word t' hof hmark =>
    rintro ⟨⟩
    obtain ⟨htake, hdrop⟩ := span_append_newline more cs
    have hof' : ofWord (c :: cs.takeWhile isWordChar) = .ok t := hof
    rw [List.cons_append, scan_word hopen hclose hquote, htake, hdrop, hof']
    rw [htake, hdrop]
    intro rest' hword hrest
    cases hcs : cs.dropWhile isWordChar with
    | nil =>
      rw [hcs] at hrest
      cases hrest
    | cons d ds =>
      rw [hcs] at hrest
      cases hrest
      exact hmark _ hword hcs

lemma next_append_of_token {t : Token} (h : next cs line = .token t rest line') :
    next (cs ++ '\n' :: more) line = .token t (rest ++ '\n' :: more) line' := by
  cases hskip : skipBlanks false cs line with
  | mk behind line₁ =>
    have hscan : scan behind line₁ = .token t rest line' := by
      rw [next, hskip] at h
      exact h
    cases behind with
    | nil => cases hscan
    | cons c behind =>
      rw [next, skipBlanks_append_of_cons _ hskip]
      exact scan_append_newline more hscan

lemma next_append_of_atEnd {last : Nat} (h : next cs line = .stop (.atEnd last)) :
    next (cs ++ '\n' :: more) line = next more (last + 1) := by
  rw [next, skipBlanks_append_of_nil _ (skipBlanks_of_next_atEnd h), next]

lemma lex_congr {ds : List Char} (h : next cs line = next ds line') :
    lex cs line = lex ds line' := by
  cases hnext : next ds line' with
  | token t rest line'' => rw [lex_of_token hnext, lex_of_token (h.trans hnext)]
  | stop s => rw [lex_of_stop hnext, lex_of_stop (h.trans hnext)]

/-- Behind a line break the tokens of a text come after those in front. -/
theorem lex_append_newline {last : Nat} (h : (lex cs line).stop = .atEnd last) :
    lex (cs ++ '\n' :: more) line = (lex cs line).append (lex more (last + 1)) := by
  fun_induction lex cs line with
  | case1 cs line t rest line' hnext ih =>
    rw [lex_of_token (next_append_of_token more hnext), ih h, Reading.append_cons]
  | case2 cs line s hnext =>
    cases h
    rw [lex_congr (next_append_of_atEnd more hnext)]
    rfl

end More

end Token

namespace Form

section Group
variable {stop : Stop} {items items' : List (Token × Nat)} {opens : List OpenList}
  {last last' : Nat}

lemma group_down (stop : Stop) (items : List (Token × Nat)) (opens : List OpenList) (k : Nat) :
    group (stop.down k) (items.map fun item => (item.1, item.2 + k)) opens =
      (group stop items opens).down k := by
  induction items generalizing opens with
  | nil => cases opens <;> cases stop <;> rfl
  | cons item items ih =>
    obtain ⟨t, line⟩ := item
    rw [List.map_cons, group, group]
    cases Grouping.step opens t with
    | within opens' => exact ih opens'
    | complete f => exact congrArg (Reading.cons f (line + k)) (ih [])
    | unexpectedClose => rfl

/-- Behind tokens that are grouped up to the end, others are grouped as if they stood alone. -/
theorem group_append (h : (group (.atEnd last) items opens).stop = .atEnd last') :
    group stop (items ++ items') opens =
      (group (.atEnd last) items opens).append (group stop items' []) := by
  induction items generalizing opens with
  | nil =>
    cases opens with
    | nil => rfl
    | cons o outer => cases h
  | cons item items ih =>
    obtain ⟨t, line⟩ := item
    rw [List.cons_append, group, group]
    rw [group] at h
    cases hstep : Grouping.step opens t with
    | within opens' =>
      rw [hstep] at h
      exact ih h
    | complete f =>
      rw [hstep] at h
      exact congrArg (Reading.cons f line) (ih h)
    | unexpectedClose =>
      rw [hstep] at h
      cases h

end Group

/-- What is read behind a text and a line break is what would be read alone, further down. -/
theorem reading_append_newline {a b : String} {last : Nat} (h : (reading a).stop = .atEnd last) :
    reading (a ++ "\n" ++ b) =
      (reading a).append ((reading b).down (1 + a.toList.count '\n')) := by
  obtain ⟨hlex, _⟩ := tokens_of_group h
  have htext : (a ++ "\n" ++ b).toList = a.toList ++ '\n' :: b.toList := by simp
  have hlast := Token.last_lex hlex
  have hdown := Token.lex_add b.toList 1 last
  have hend : (group (.atEnd last) (Token.lex a.toList 1).items []).stop = .atEnd last := by
    rw [reading, ofTokens, hlex] at h
    exact h
  unfold reading ofTokens
  rw [htext, Token.lex_append_newline _ hlex, Nat.add_comm last, hdown, ← hlast, hlex]
  change group ((Token.lex b.toList 1).stop.down last)
    (_ ++ (Token.lex b.toList 1).items.map _) [] = _
  rw [group_append hend, group_down]

/-- A text is read as one form if this is all it holds. -/
theorem readOne_eq_ok_iff {source : String} {f : Form} :
    readOne source = .ok f ↔ readAll source = .ok [f] := by
  rw [readAll_eq_ok, Reading.values]
  unfold readOne
  dsimp only
  cases (reading source).stop with
  | fault line cause =>
    rcases (reading source).items with _ | ⟨first, _ | ⟨second, rest⟩⟩ <;> simp
  | atEnd last =>
    rcases (reading source).items with _ | ⟨first, _ | ⟨second, rest⟩⟩ <;> simp

lemma readAll_eq_error {source : String} {e : Error} (h : readAll source = .error e) :
    ∃ line cause, e = .unreadable line cause ∧ (reading source).stop = .fault line cause := by
  unfold readAll at h
  dsimp only at h
  split at h
  · cases h
  · rename_i line cause hstop
    cases h
    exact ⟨line, cause, rfl, hstop⟩

lemma readAll_of_fault {source : String} {line : Nat} {cause : SyntaxFault}
    (h : (reading source).stop = .fault line cause) :
    readAll source = .error (.unreadable line cause) := by
  unfold readAll
  dsimp only
  rw [h]

/-- Two texts with a line break between them hold the forms of both, or the fault of the second one
so many lines further down as the first one and the line break make. And one form is read from a
text if and only if it is all that is read. -/
theorem readAll_append_newline :
    (∀ a b fs, readAll a = .ok fs →
      (∀ gs, readAll b = .ok gs → readAll (a ++ "\n" ++ b) = .ok (fs ++ gs)) ∧
      ∀ e, readAll b = .error e → ∃ line cause, e = .unreadable line cause ∧
        readAll (a ++ "\n" ++ b) =
          .error (.unreadable (line + (1 + a.toList.count '\n')) cause)) ∧
    ∀ source f, readOne source = .ok f ↔ readAll source = .ok [f] := by
  refine ⟨fun a b fs ha => ?_, fun source f => readOne_eq_ok_iff⟩
  obtain ⟨⟨last, hend⟩, hfs⟩ := readAll_eq_ok.1 ha
  have hjoined := reading_append_newline (b := b) hend
  constructor
  · intro gs hb
    obtain ⟨⟨last', hend'⟩, hgs⟩ := readAll_eq_ok.1 hb
    rw [readAll_eq_ok, hjoined, Reading.stop_append, Reading.stop_down, hend',
      Reading.values_append, Reading.values_down, hfs, hgs]
    exact ⟨⟨_, rfl⟩, rfl⟩
  · intro e hb
    obtain ⟨line, cause, rfl, hstop⟩ := readAll_eq_error hb
    refine ⟨line, cause, rfl, readAll_of_fault ?_⟩
    rw [hjoined, Reading.stop_append, Reading.stop_down, hstop]
    rfl

/-- The first text ends in an equals sign and a comment, has line breaks in a string and behind
another comment, and is followed by a parenthesis, or by a fault on the second line. -/
theorem readAll_append_newline_of_comment :
    let a := "(name \"x\ny\") ; one\n = ; two"
    let b := "(b \"p\nq\" ?)"
    ∃ fs gs, readAll a = .ok fs ∧ readAll "(k)" = .ok gs ∧
      readAll (a ++ "\n" ++ "(k)") = .ok (fs ++ gs) ∧
      sequenceText (fs ++ gs) = "(name \"x\ny\") = (k)" ∧
      readAll b = .error (.unreadable 2 .missingVariableName) ∧
      readAll (a ++ "\n" ++ b) = .error (.unreadable 5 .missingVariableName) := by
  intro a b
  have ha : readAll a = .ok (reading a).values :=
    readAll_eq_ok.2 ⟨⟨3, by decide +kernel⟩, rfl⟩
  have hk : readAll "(k)" = .ok (reading "(k)").values :=
    readAll_eq_ok.2 ⟨⟨1, by decide +kernel⟩, rfl⟩
  have hb : readAll b = .error (.unreadable 2 .missingVariableName) :=
    readAll_of_fault (by decide +kernel)
  obtain ⟨line, cause, heq, hjoined⟩ := (readAll_append_newline.1 a b _ ha).2 _ hb
  cases heq
  have hcount : a.toList.count '\n' = 2 := by decide +kernel
  rw [hcount] at hjoined
  exact ⟨_, _, ha, hk, (readAll_append_newline.1 a "(k)" _ ha).1 _ hk, by decide +kernel, hb,
    hjoined⟩

end Form

end KeyedTables
