import KeyedTables.Proofs.Form.Grouping

/-!
# Texts that are read

A text is read as forms exactly if its tokens, taken one after another up to its end, are the tokens
of these forms in order. So no token is lost, repeated or moved, and a text is read if and only if
all its tokens can be taken and their parentheses are balanced.
-/
namespace KeyedTables

namespace Token

/-- Taking the next token again and again yields these tokens, and then the end of the text. -/
inductive Taken : List Char → Nat → List Token → Prop
  | nil {cs : List Char} {line last : Nat} : next cs line = .stop (.atEnd last) → Taken cs line []
  | cons {cs rest : List Char} {line line' : Nat} {t : Token} {ts : List Token} :
    next cs line = .token t rest line' → Taken rest line' ts → Taken cs line (t :: ts)

lemma Taken.values_lex {cs : List Char} {line : Nat} {ts : List Token} (h : Taken cs line ts) :
    (∃ last, (lex cs line).stop = .atEnd last) ∧ (lex cs line).values = ts := by
  induction h with
  | nil hnext =>
    rw [lex_of_stop hnext]
    exact ⟨⟨_, rfl⟩, rfl⟩
  | cons hnext _ ih =>
    obtain ⟨hend, hvalues⟩ := ih
    rw [lex_of_token hnext, Reading.stop_cons, Reading.values_cons, hvalues]
    exact ⟨hend, rfl⟩

lemma taken_lex {cs : List Char} {line last : Nat} (h : (lex cs line).stop = .atEnd last) :
    Taken cs line (lex cs line).values := by
  fun_induction lex cs line with
  | case1 cs line t rest line' hnext ih => exact .cons hnext (ih h)
  | case2 cs line s hnext =>
    cases h
    exact .nil hnext

lemma taken_iff {cs : List Char} {line : Nat} {ts : List Token} :
    Taken cs line ts ↔ (∃ last, (lex cs line).stop = .atEnd last) ∧ (lex cs line).values = ts := by
  constructor
  · exact Taken.values_lex
  · rintro ⟨⟨last, hend⟩, rfl⟩
    exact taken_lex hend

/-- How many lists are open behind tokens, so many being open before; none if one is closed that is
not open. -/
def openAfter : List Token → Nat → Option Nat
  | [], opens => some opens
  | openList :: ts, opens | openImmediate :: ts, opens => openAfter ts (opens + 1)
  | close :: _, 0 => none
  | close :: ts, opens + 1 => openAfter ts opens
  | _ :: ts, opens => openAfter ts opens

/-- Every list that is opened is closed, and no other. -/
def Balanced (ts : List Token) : Prop := openAfter ts 0 = some 0

end Token

namespace Form

open Token (Taken Balanced openAfter)

mutual

theorem openAfter_tokens : ∀ (f : Form) (rest : List Token) (opens : Nat),
    openAfter (f.tokens ++ rest) opens = openAfter rest opens
  | .atom a, rest, opens | .var v, rest, opens | .globalVar g, rest, opens => by
    rw [tokens]
    rfl
  | .list fs, rest, opens | .immediate fs, rest, opens => by
    rw [tokens, List.cons_append, List.append_assoc, openAfter, openAfter_itemTokens]
    rfl

theorem openAfter_itemTokens : ∀ (fs : List Form) (rest : List Token) (opens : Nat),
    openAfter (itemTokens fs ++ rest) opens = openAfter rest opens
  | [], rest, opens => by
    rw [itemTokens]
    rfl
  | f :: fs, rest, opens => by
    rw [itemTokens, List.append_assoc, openAfter_tokens, openAfter_itemTokens]

end

lemma balanced_itemTokens (fs : List Form) : Balanced (itemTokens fs) := by
  have h := openAfter_itemTokens fs [] 0
  rwa [List.append_nil] at h

lemma itemTokens_append (fs gs : List Form) :
    itemTokens (fs ++ gs) = itemTokens fs ++ itemTokens gs := by
  rw [itemTokens_eq_flatMap, itemTokens_eq_flatMap, itemTokens_eq_flatMap, List.flatMap_append]

def opening (o : OpenList) : Token := if o.isImmediate then .openImmediate else .openList

/-- The tokens that lists were opened with and that their items have, the outermost list first. -/
def openTokens : List OpenList → List Token
  | [] => []
  | o :: outer => openTokens outer ++ opening o :: itemTokens o.items.reverse

lemma tokens_close (o : OpenList) :
    o.close.tokens = opening o :: (itemTokens o.items.reverse ++ [.close]) := by
  rw [OpenList.close, opening]
  split
  · rw [tokens]
  · rw [tokens]

namespace Grouping

/-- The tokens of what is grouped, as far as it is complete. -/
def tokens : Grouping → List Token
  | within opens => openTokens opens
  | complete f => f.tokens
  | unexpectedClose => []

def opens : Grouping → Nat
  | within opens => opens.length
  | complete _ | unexpectedClose => 0

lemma tokens_place (f : Form) (opens : List OpenList) :
    (place f opens).tokens = openTokens opens ++ f.tokens := by
  cases opens with
  | nil => rfl
  | cons o outer =>
    change openTokens outer ++ opening o :: itemTokens (f :: o.items).reverse = _
    rw [List.reverse_cons, itemTokens_append, itemTokens, itemTokens, List.append_nil, openTokens,
      List.append_assoc, List.cons_append]

/-- A token goes behind those that were grouped before. -/
theorem tokens_step {opens : List OpenList} {t : Token} (h : step opens t ≠ unexpectedClose) :
    (step opens t).tokens = openTokens opens ++ [t] := by
  cases t with
  | openList | openImmediate => rfl
  | atom a | var v | globalVar g => exact (tokens_place _ opens).trans (by rw [Form.tokens])
  | close =>
    cases opens with
    | nil => exact absurd rfl h
    | cons o outer =>
      rw [step, tokens_place, tokens_close, openTokens, List.append_assoc, List.cons_append]

lemma opens_place (f : Form) (opens : List OpenList) : (place f opens).opens = opens.length := by
  cases opens <;> rfl

lemma place_ne (f : Form) (opens : List OpenList) : place f opens ≠ unexpectedClose := by
  cases opens <;> rintro ⟨⟩

/-- As long as no list is closed that is not open, tokens are grouped, and the open lists counted
rightly. -/
theorem openAfter_cons {opens : List OpenList} {t : Token} {ts : List Token} {n : Nat}
    (h : openAfter (t :: ts) opens.length = some n) :
    step opens t ≠ unexpectedClose ∧ openAfter ts (step opens t).opens = some n := by
  cases t with
  | openList | openImmediate => exact ⟨Grouping.noConfusion, h⟩
  | atom a | var v | globalVar g => exact ⟨place_ne _ opens, by rwa [step, opens_place]⟩
  | close =>
    cases opens with
    | nil => cases h
    | cons o outer => exact ⟨place_ne _ outer, by rwa [step, opens_place]⟩

end Grouping

section Group
variable {stop : Stop} {items : List (Token × Nat)} {opens : List OpenList} {last : Nat}

/-- Forms that are grouped up to the end have the tokens they are grouped from. -/
theorem tokens_of_group (h : (group stop items opens).stop = .atEnd last) :
    stop = .atEnd last ∧
      openTokens opens ++ items.map Prod.fst = itemTokens (group stop items opens).values := by
  induction items generalizing opens with
  | nil =>
    cases opens with
    | nil => exact ⟨h, rfl⟩
    | cons o outer =>
      cases stop <;> cases h
  | cons item items ih =>
    obtain ⟨t, line⟩ := item
    rw [group] at h ⊢
    have hstep := @Grouping.tokens_step opens t
    cases hgroup : Grouping.step opens t with
    | within opens' =>
      rw [hgroup] at h hstep
      obtain ⟨hend, htokens⟩ := ih h
      refine ⟨hend, ?_⟩
      rw [← htokens, List.map_cons, List.append_cons, ← hstep Grouping.noConfusion]
      rfl
    | complete f =>
      rw [hgroup] at h hstep
      obtain ⟨hend, htokens⟩ := ih h
      refine ⟨hend, ?_⟩
      rw [Reading.values_cons, itemTokens, ← htokens, List.map_cons, List.append_cons,
        ← hstep Grouping.noConfusion]
      rfl
    | unexpectedClose =>
      rw [hgroup] at h
      cases h

/-- Grouping puts forms together from their tokens. -/
theorem group_itemTokens_outside {fs : List Form} (h : items.map Prod.fst = itemTokens fs) :
    (group stop items []).stop = stop ∧ (group stop items []).values = fs := by
  induction fs generalizing items with
  | nil =>
    rw [itemTokens, List.map_eq_nil_iff] at h
    rw [h]
    exact ⟨rfl, rfl⟩
  | cons f fs ih =>
    rw [itemTokens] at h
    obtain ⟨first, rest, rfl, hfirst, hrest⟩ := List.map_eq_append_iff.1 h
    obtain ⟨line, hgroup⟩ := group_tokens_outside stop rest f hfirst
    obtain ⟨hend, hvalues⟩ := ih hrest
    rw [hgroup, Reading.stop_cons, Reading.values_cons, hvalues]
    exact ⟨hend, rfl⟩

/-- Tokens that close all lists are grouped up to the end. -/
theorem stop_group_of_openAfter (h : openAfter (items.map Prod.fst) opens.length = some 0) :
    (group (.atEnd last) items opens).stop = .atEnd last := by
  induction items generalizing opens with
  | nil =>
    rw [List.map_nil, openAfter, Option.some.injEq, List.length_eq_zero_iff] at h
    rw [h]
    rfl
  | cons item items ih =>
    obtain ⟨t, line⟩ := item
    obtain ⟨hne, hafter⟩ := Grouping.openAfter_cons h
    rw [group]
    cases hgroup : Grouping.step opens t with
    | within opens' =>
      rw [hgroup] at hafter
      exact ih hafter
    | complete f =>
      rw [hgroup] at hafter
      have hrest : openAfter (items.map Prod.fst) ([] : List OpenList).length = some 0 := hafter
      exact ih hrest
    | unexpectedClose => exact absurd hgroup hne

end Group

theorem readAll_eq_ok {source : String} {fs : List Form} :
    readAll source = .ok fs ↔
      (∃ last, (reading source).stop = .atEnd last) ∧ (reading source).values = fs := by
  unfold readAll
  dsimp only
  cases (reading source).stop with
  | atEnd last => simp
  | fault line cause => simp

/-- A text is read as forms if and only if its tokens are theirs, and it is read at all if and only
if its parentheses are balanced. -/
theorem readAll_eq_ok_iff_taken (source : String) :
    (∀ fs, readAll source = .ok fs ↔ Taken source.toList 1 (itemTokens fs)) ∧
      ((∃ fs, readAll source = .ok fs) ↔ ∃ ts, Taken source.toList 1 ts ∧ Balanced ts) := by
  have hread : ∀ fs, readAll source = .ok fs ↔ Taken source.toList 1 (itemTokens fs) := by
    intro fs
    rw [readAll_eq_ok, Token.taken_iff]
    constructor
    · rintro ⟨⟨last, hend⟩, rfl⟩
      obtain ⟨hlex, htokens⟩ := tokens_of_group hend
      exact ⟨⟨last, hlex⟩, htokens⟩
    · rintro ⟨⟨last, hlex⟩, htokens⟩
      obtain ⟨hend, hvalues⟩ := group_itemTokens_outside htokens
      exact ⟨⟨last, hend.trans hlex⟩, hvalues⟩
  refine ⟨hread, ?_, ?_⟩
  · rintro ⟨fs, h⟩
    exact ⟨itemTokens fs, (hread fs).1 h, balanced_itemTokens fs⟩
  · rintro ⟨ts, htaken, hbalanced⟩
    obtain ⟨⟨last, hlex⟩, rfl⟩ := Token.taken_iff.1 htaken
    have hend : (group (.atEnd last) (Token.lex source.toList 1).items []).stop = .atEnd last :=
      stop_group_of_openAfter hbalanced
    rw [← hlex] at hend
    exact ⟨_, readAll_eq_ok.2 ⟨⟨last, hend.trans hlex⟩, rfl⟩⟩

end Form

end KeyedTables
