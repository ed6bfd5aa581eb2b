import KeyedTables.Form.Reader
import KeyedTables.Proofs.Form.Lexing

/-!
# Forms and their tokens

A form has its tokens in order, a list those of its items between parentheses. Grouping puts a form
together from its tokens again, wherever it stands. So a form that is spelled with readable tokens
is read from its spelling; and the tokens of a form that was read are tokens of the text.
-/
namespace KeyedTables

def Atom.isFloat : Atom → Bool
  | float _ => true
  | symbol _ | string _ | integer _ => false

namespace Form

mutual

def tokens : Form → List Token
  | atom a => [.atom a]
  | var v => [.var v]
  | globalVar g => [.globalVar g]
  | list fs => .openList :: (itemTokens fs ++ [.close])
  | immediate fs => .openImmediate :: (itemTokens fs ++ [.close])

def itemTokens : List Form → List Token
  | [] => []
  | f :: fs => tokens f ++ itemTokens fs

end

theorem itemTokens_eq_flatMap (fs : List Form) : itemTokens fs = fs.flatMap tokens := by
  induction fs with
  | nil => rfl
  | cons f fs ih => rw [itemTokens, ih, List.flatMap_cons]

section Group
variable {stop : Stop} {items after : List (Token × Nat)} {o : OpenList} {outer : List OpenList}

/-- The tokens of a list begin with its parenthesis and end with the closing one. -/
theorem eq_of_map_fst {opening : Token} {ts : List Token}
    (h : items.map Prod.fst = opening :: (ts ++ [.close])) :
    ∃ line inner line', items = (opening, line) :: (inner ++ [(.close, line')]) ∧
      inner.map Prod.fst = ts := by
  obtain ⟨⟨t, line⟩, rest, rfl, rfl, hrest⟩ := List.map_eq_cons_iff.1 h
  obtain ⟨inner, closing, rfl, hinner, hclosing⟩ := List.map_eq_append_iff.1 hrest
  obtain ⟨⟨t', line'⟩, rfl, rfl⟩ := List.map_eq_singleton_iff.1 hclosing
  exact ⟨line, inner, line', rfl, hinner⟩

mutual

/-- A form inside an open list becomes an item of it. -/
theorem group_tokens : ∀ (f : Form) {items after : List (Token × Nat)} {o : OpenList}
    {outer : List OpenList}, items.map Prod.fst = f.tokens →
      group stop (items ++ after) (o :: outer) =
        group stop after (⟨o.isImmediate, f :: o.items⟩ :: outer)
  | .atom a, items, after, o, outer, h | .var v, items, after, o, outer, h
  | .globalVar g, items, after, o, outer, h => by
    rw [tokens] at h
    obtain ⟨⟨t, line⟩, rfl, rfl⟩ := List.map_eq_singleton_iff.1 h
    rfl
  | .list fs, items, after, o, outer, h => by
    rw [tokens] at h
    obtain ⟨line, inner, line', rfl, hinner⟩ := eq_of_map_fst h
    rw [List.cons_append, List.append_assoc]
    change group stop (inner ++ _) (⟨false, []⟩ :: o :: outer) = _
    rw [group_itemTokens fs hinner, List.append_nil]
    change group stop after (⟨o.isImmediate, .list fs.reverse.reverse :: o.items⟩ :: outer) = _
    rw [List.reverse_reverse]
  | .immediate fs, items, after, o, outer, h => by
    rw [tokens] at h
    obtain ⟨line, inner, line', rfl, hinner⟩ := eq_of_map_fst h
    rw [List.cons_append, List.append_assoc]
    change group stop (inner ++ _) (⟨true, []⟩ :: o :: outer) = _
    rw [group_itemTokens fs hinner, List.append_nil]
    change group stop after (⟨o.isImmediate, .immediate fs.reverse.reverse :: o.items⟩ :: outer) = _
    rw [List.reverse_reverse]

theorem group_itemTokens : ∀ (fs : List Form) {items after : List (Token × Nat)} {o : OpenList}
    {outer : List OpenList}, items.map Prod.fst = itemTokens fs →
      group stop (items ++ after) (o :: outer) =
        group stop after (⟨o.isImmediate, fs.reverse ++ o.items⟩ :: outer)
  | [], items, after, o, outer, h => by
    rw [itemTokens, List.map_eq_nil_iff] at h
    rw [h]
    rfl
  | f :: fs, items, after, o, outer, h => by
    rw [itemTokens] at h
    obtain ⟨first, rest, rfl, hfirst, hrest⟩ := List.map_eq_append_iff.1 h
    rw [List.append_assoc, group_tokens f hfirst, group_itemTokens fs hrest, List.reverse_cons,
      List.append_assoc]
    rfl

end

/-- The tokens of a form, outside of all lists, are grouped into the form. -/
theorem group_tokens_outside (stop : Stop) (after : List (Token × Nat)) (f : Form)
    (h : items.map Prod.fst = f.tokens) :
    ∃ line, group stop (items ++ after) [] = (group stop after []).cons f line := by
  cases f with
  | atom a | var v | globalVar g =>
    rw [tokens] at h
    obtain ⟨⟨t, line⟩, rfl, rfl⟩ := List.map_eq_singleton_iff.1 h
    exact ⟨line, rfl⟩
  | list fs | immediate fs =>
    rw [tokens] at h
    obtain ⟨_, inner, line, rfl, hinner⟩ := eq_of_map_fst h
    refine ⟨line, ?_⟩
    rw [List.cons_append, List.append_assoc, group]
    dsimp only [Grouping.step]
    rw [group_itemTokens fs hinner, List.append_nil]
    change Reading.cons _ _ _ = _
    dsimp only [OpenList.close]
    rw [List.reverse_reverse]
    rfl

end Group

/-- A text with the tokens of a form holds this form. -/
theorem readOne_of_lexes {cs : List Char} {f : Form} (h : Token.Lexes cs f.tokens []) :
    readOne (String.ofList cs) = .ok f := by
  obtain ⟨items, line, hitems, hlex⟩ := h 1
  have hend : Token.lex [] line = ⟨[], .atEnd line⟩ := Token.lex_of_stop rfl
  rw [List.append_nil, hend, List.append_nil] at hlex
  obtain ⟨line', hgroup⟩ := group_tokens_outside (.atEnd line) [] f hitems
  rw [List.append_nil] at hgroup
  unfold readOne reading ofTokens
  rw [String.toList_ofList, hlex]
  dsimp only
  rw [hgroup]
  rfl

def AllTokens (P : Token → Prop) (f : Form) : Prop := ∀ t ∈ f.tokens, P t

abbrev Readable (f : Form) : Prop := f.AllTokens Token.Readable

section AllTokens
variable {P : Token → Prop}

theorem allTokens_atom_iff {a : Atom} : (atom a).AllTokens P ↔ P (.atom a) := by
  rw [AllTokens, tokens]
  exact List.forall_mem_singleton

lemma forall_mem_itemTokens_iff {fs : List Form} :
    (∀ t ∈ itemTokens fs, P t) ↔ ∀ f ∈ fs, f.AllTokens P := by
  simp only [itemTokens_eq_flatMap, List.mem_flatMap, AllTokens]
  constructor
  · exact fun h f hf t ht => h t ⟨f, hf, ht⟩
  · rintro h t ⟨f, hf, ht⟩
    exact h f hf t ht

theorem allTokens_list_iff {fs : List Form} :
    (list fs).AllTokens P ↔ P .openList ∧ (∀ f ∈ fs, f.AllTokens P) ∧ P .close := by
  rw [AllTokens, tokens, List.forall_mem_cons, List.forall_mem_append, forall_mem_itemTokens_iff,
    List.forall_mem_singleton]

lemma allTokens_immediate_iff {fs : List Form} :
    (immediate fs).AllTokens P ↔ P .openImmediate ∧ (∀ f ∈ fs, f.AllTokens P) ∧ P .close := by
  rw [AllTokens, tokens, List.forall_mem_cons, List.forall_mem_append, forall_mem_itemTokens_iff,
    List.forall_mem_singleton]

/-- The items of the lists that are open have a property, or the form that is complete has it. -/
def Grouping.AllTokens (P : Token → Prop) : Grouping → Prop
  | within opens => ∀ o ∈ opens, ∀ f ∈ o.items, f.AllTokens P
  | complete f => f.AllTokens P
  | unexpectedClose => True

lemma allTokens_place {f : Form} (hf : f.AllTokens P) {opens : List OpenList}
    (hopens : (Grouping.within opens).AllTokens P) : (Grouping.place f opens).AllTokens P := by
  cases opens with
  | nil => exact hf
  | cons o outer =>
    obtain ⟨ho, houter⟩ := List.forall_mem_cons.1 hopens
    exact List.forall_mem_cons.2 ⟨List.forall_mem_cons.2 ⟨hf, ho⟩, houter⟩

section
variable (hlist : P .openList) (himmediate : P .openImmediate) (hclose : P .close)
include hlist himmediate hclose

lemma allTokens_close {o : OpenList} (ho : ∀ f ∈ o.items, f.AllTokens P) :
    o.close.AllTokens P := by
  have hitems : ∀ f ∈ o.items.reverse, f.AllTokens P := fun f hf => ho f (List.mem_reverse.1 hf)
  rw [OpenList.close]
  split
  · exact allTokens_immediate_iff.2 ⟨himmediate, hitems, hclose⟩
  · exact allTokens_list_iff.2 ⟨hlist, hitems, hclose⟩

/-- One token keeps a property that it has, and that parentheses have. -/
theorem allTokens_step {opens : List OpenList} {t : Token} (ht : P t)
    (hopens : (Grouping.within opens).AllTokens P) : (Grouping.step opens t).AllTokens P := by
  cases t with
  | openList | openImmediate =>
    refine List.forall_mem_cons.2 ⟨fun f hf => ?_, hopens⟩
    cases hf
  | close =>
    cases opens with
    | nil => trivial
    | cons o outer =>
      obtain ⟨ho, houter⟩ := List.forall_mem_cons.1 hopens
      exact allTokens_place (allTokens_close hlist himmediate hclose ho) houter
  | atom a | var v | globalVar g =>
    refine allTokens_place (fun t ht' => ?_) hopens
    rw [tokens] at ht'
    rw [List.mem_singleton.1 ht']
    exact ht

lemma allTokens_of_mem_group {stop : Stop} {items : List (Token × Nat)}
    {opens : List OpenList} (hitems : ∀ t ∈ items.map Prod.fst, P t)
    (hopens : (Grouping.within opens).AllTokens P) {f : Form}
    (hf : f ∈ (group stop items opens).values) : f.AllTokens P := by
  induction items generalizing opens with
  | nil => cases hf
  | cons item items ih =>
    obtain ⟨t, line⟩ := item
    obtain ⟨ht, hitems⟩ := List.forall_mem_cons.1 hitems
    have hstep := allTokens_step hlist himmediate hclose ht hopens
    rw [group] at hf
    split at hf
    · rename_i heq
      rw [heq] at hstep
      exact ih hitems hstep hf
    · rename_i heq
      rw [heq] at hstep
      obtain rfl | hf := List.mem_cons.1 hf
      · exact hstep
      · exact ih hitems (fun o ho => by cases ho) hf
    · cases hf

end

/-- The tokens of a form can be read back, but for floating numbers. -/
abbrev Read (f : Form) : Prop := f.AllTokens fun t => t.Readable ∨ ∃ x, t = .atom (.float x)

theorem Read.of_mem_list {fs : List Form} (h : (list fs).Read) {f : Form} (hf : f ∈ fs) : f.Read :=
  (allTokens_list_iff.1 h).2.1 f hf

theorem Read.readable_symbol {s : String} (h : (atom (.symbol s)).Read) :
    (Token.atom (.symbol s)).Readable := by
  obtain hreadable | ⟨x, hx⟩ := allTokens_atom_iff.1 h
  · exact hreadable
  · cases hx

/-- The tokens of a form that was read are tokens of the text. -/
theorem read_of_mem_reading {source : String} {f : Form} (h : f ∈ (reading source).values) :
    f.Read := by
  refine allTokens_of_mem_group (Or.inl trivial) (Or.inl trivial) (Or.inl trivial) ?_
    (fun o ho => by cases ho) h
  intro t ht
  exact Token.readable_of_mem_lex ht

end AllTokens

open Token (Lexes Separated)

lemma separated_space (rest : List Char) : Separated (' ' :: rest) := by
  intro c hc
  cases hc
  decide

lemma separated_close (rest : List Char) : Separated (')' :: rest) := by
  intro c hc
  cases hc
  decide

mutual

/-- The spelling of a form has its tokens. -/
theorem lexes_chars : ∀ (f : Form), f.Readable → ∀ {rest : List Char}, Separated rest →
    Lexes f.chars f.tokens rest
  | .atom a, h, rest, hrest => by
    rw [chars, tokens]
    exact (h _ List.mem_cons_self).lexes hrest
  | .var v, h, rest, hrest => by
    rw [chars, tokens]
    exact (h _ List.mem_cons_self).lexes hrest
  | .globalVar g, h, rest, hrest => by
    rw [chars, tokens]
    exact (h _ List.mem_cons_self).lexes hrest
  | .list fs, h, rest, hrest => by
    rw [chars, tokens]
    have hitems := lexes_itemChars fs (allTokens_list_iff.1 h).2.1 (separated_close rest)
    exact (Lexes.openList _).append (hitems.append (.close rest))
  | .immediate fs, h, rest, hrest => by
    rw [chars, tokens]
    have hitems := lexes_itemChars fs (allTokens_immediate_iff.1 h).2.1 (separated_close rest)
    exact (Lexes.openImmediate _).append (hitems.append (.close rest))

theorem lexes_itemChars : ∀ (fs : List Form), (∀ f ∈ fs, f.Readable) → ∀ {rest : List Char},
    Separated rest → Lexes (itemChars fs) (itemTokens fs) rest
  | [], _, rest, _ => by
    rw [itemChars, itemTokens]
    exact .nil rest
  | [f], h, rest, hrest => by
    rw [itemChars, itemTokens, itemTokens, List.append_nil]
    exact lexes_chars f (h f List.mem_cons_self) hrest
  | f :: g :: fs, h, rest, hrest => by
    obtain ⟨hf, hfs⟩ := List.forall_mem_cons.1 h
    rw [itemChars, itemTokens]
    have hitems := lexes_itemChars (g :: fs) hfs hrest
    have hspaced := (Lexes.blank Text.isBlank_space _).append hitems
    exact (lexes_chars f hf (separated_space _)).append hspaced

end

theorem itemChars_eq_intercalate (fs : List Form) :
    itemChars fs = [' '].intercalate (fs.map chars) := by
  induction fs with
  | nil => rfl
  | cons f fs ih =>
    cases fs with
    | nil => simp [itemChars]
    | cons g gs =>
      rw [itemChars, ih]
      simp

/-- Forms spelled one after another, each with blanks in front. -/
inductive Spaced : List Form → List Char → Prop
  | nil : Spaced [] []
  | cons {blanks : List Char} {f : Form} {fs : List Form} {cs : List Char} : blanks ≠ [] →
      (∀ b ∈ blanks, Text.isBlank b = true) → Spaced fs cs →
        Spaced (f :: fs) (blanks ++ f.chars ++ cs)

namespace Spaced

theorem singleton {blanks : List Char} (hne : blanks ≠ [])
    (hblank : ∀ b ∈ blanks, Text.isBlank b = true) (f : Form) :
    Spaced [f] (blanks ++ f.chars) := by
  have h := Spaced.cons (f := f) hne hblank .nil
  rwa [List.append_nil] at h

theorem append {fs gs : List Form} {cs ds : List Char} (h : Spaced fs cs) (h' : Spaced gs ds) :
    Spaced (fs ++ gs) (cs ++ ds) := by
  induction h with
  | nil => exact h'
  | cons hne hblank _ ih =>
    rw [List.append_assoc]
    exact .cons hne hblank ih

theorem flatMap {α : Type} {form : α → Form} {spell : α → List Char}
    (h : ∀ a, Spaced [form a] (spell a)) (as : List α) :
    Spaced (as.map form) (as.flatMap spell) := by
  induction as with
  | nil => exact .nil
  | cons a as ih => exact (h a).append ih

lemma separated {fs : List Form} {cs rest : List Char} (h : Spaced fs cs)
    (hrest : Separated rest) : Separated (cs ++ rest) := by
  cases h with
  | nil => exact hrest
  | @cons blanks f fs cs hne hblank _ =>
    obtain ⟨b, bs, rfl⟩ := List.exists_cons_of_ne_nil hne
    have hb := hblank b List.mem_cons_self
    intro c hc
    cases hc
    refine ⟨by rw [Token.isDelimiter, hb]; rfl, ?_⟩
    rintro rfl
    cases hb

lemma lexes {fs : List Form} {cs rest : List Char} (h : Spaced fs cs)
    (hfs : ∀ f ∈ fs, f.Readable) (hrest : Separated rest) : Lexes cs (itemTokens fs) rest := by
  induction h with
  | nil =>
    rw [itemTokens]
    exact .nil rest
  | @cons blanks f fs cs _ hblank hspaced ih =>
    obtain ⟨hf, hfs⟩ := List.forall_mem_cons.1 hfs
    rw [itemTokens]
    have hchars := lexes_chars f hf (hspaced.separated hrest)
    have hblanks := (Lexes.blanks hblank _).append hchars
    exact hblanks.append (ih hfs)

end Spaced

/-- A list is read from a text in which blanks stand between its items. -/
theorem readOne_of_spaced {f : Form} {fs : List Form} {cs : List Char} (hf : f.Readable)
    (hfs : ∀ f ∈ fs, f.Readable) (h : Spaced fs cs) :
    readOne (String.ofList ('(' :: (f.chars ++ cs ++ [')']))) = .ok (.list (f :: fs)) := by
  refine readOne_of_lexes ?_
  rw [tokens, itemTokens]
  have hclose : Separated [')'] := separated_close []
  have hitems := (lexes_chars f hf (h.separated hclose)).append (h.lexes hfs hclose)
  exact (Lexes.openList _).append (hitems.append (.close []))

/-- What a text holds that holds one form is read from it. -/
theorem mem_reading_of_readOne {source : String} {f : Form} (h : readOne source = .ok f) :
    f ∈ (reading source).values := by
  unfold readOne at h
  dsimp only at h
  split at h
  · cases h
  · cases h
  · cases h
  · rename_i line _ hitems _
    cases h
    rw [Reading.values, hitems]
    exact List.mem_cons_self

/-- A readable form is read from its spelling. -/
theorem readOne_text {f : Form} (h : f.Readable) : readOne f.text = .ok f := by
  refine readOne_of_lexes (lexes_chars f h fun c hc => ?_)
  cases hc

end Form

end KeyedTables
