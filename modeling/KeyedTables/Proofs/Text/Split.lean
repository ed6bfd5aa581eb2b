import KeyedTables.Text.Split
import Mathlib.Data.List.Infix

/-!
# Joined names

A module and a name joined by two colons are divided again where they were joined exactly if the
module's name neither holds two adjacent colons nor ends in a colon. Behind the first two colons
there may be anything.
-/
namespace KeyedTables.Text

def colons : List Char := [':', ':']

/-- A name that may stand in front of two colons: these are then the first in the text. -/
def Prefixes (name : String) : Prop :=
  ¬ colons <:+: name.toList ∧ name.toList.getLast? ≠ some ':'

instance (name : String) : Decidable (Prefixes name) := inferInstanceAs (Decidable (_ ∧ _))

lemma splitColons?_eq_none_iff {cs : List Char} : splitColons? cs = none ↔ ¬ colons <:+: cs := by
  fun_induction splitColons? cs with
  | case1 cs => simp [colons, List.infix_cons_iff]
  | case2 c cs hc ih =>
    have hprefix : ¬ colons <+: c :: cs := by
      rintro ⟨rest, hrest⟩
      cases hrest
      exact hc rest rfl rfl
    rw [Option.map_eq_none_iff, ih, List.infix_cons_iff, not_or]
    exact (and_iff_right hprefix).symm
  | case3 => simp [colons]

theorem splitQualified?_eq_none_iff {name : String} :
    splitQualified? name = none ↔ ¬ colons <:+: name.toList := by
  rw [splitQualified?, Option.map_eq_none_iff, splitColons?_eq_none_iff]

/-- Two colons behind a text that neither holds two adjacent ones nor ends in one are the first. -/
theorem splitColons?_append_iff {cs ds : List Char} :
    splitColons? (cs ++ ':' :: ':' :: ds) = some (cs, ds) ↔
      ¬ colons <:+: cs ∧ cs.getLast? ≠ some ':' := by
  induction cs with
  | nil => simp [splitColons?, colons]
  | cons c cs ih =>
    rw [List.cons_append]
    by_cases hc : c = ':' ∧ ∃ rest, cs ++ ':' :: ':' :: ds = ':' :: rest
    · obtain ⟨rfl, rest, hrest⟩ := hc
      rw [hrest, splitColons?]
      refine ⟨fun h => (by simp at h), fun ⟨hcolons, hlast⟩ => ?_⟩
      -- the colon behind the first one belongs to the text in front, or that ends in the first one
      cases cs with
      | nil => exact absurd rfl hlast
      | cons d cs =>
        cases hrest
        exact absurd (List.infix_append [] colons cs) hcolons
    · have hsplit : splitColons? (c :: (cs ++ ':' :: ':' :: ds)) =
          (splitColons? (cs ++ ':' :: ':' :: ds)).map fun r => (c :: r.1, r.2) := by
        rw [splitColons?]
        rintro rest rfl hrest
        exact hc ⟨rfl, rest, hrest⟩
      have hprefix : ¬ colons <+: c :: cs := by
        rintro ⟨rest, hrest⟩
        cases hrest
        exact hc ⟨rfl, _, rfl⟩
      have hlast : (c :: cs).getLast? ≠ some ':' ↔ cs.getLast? ≠ some ':' := by
        cases cs with
        | nil =>
          refine iff_of_true (fun h => hc ⟨by simpa using h, _, rfl⟩) (by simp)
        | cons d cs => rw [List.getLast?_cons_cons]
      rw [hsplit, hlast, List.infix_cons_iff, not_or, and_iff_right hprefix, ← ih,
        Option.map_eq_some_iff]
      simp

/-- A colon behind a text without one is the first. -/
theorem splitColon?_append {cs : List Char} (h : ':' ∉ cs) (ds : List Char) :
    splitColon? (cs ++ ':' :: ds) = some (cs, ds) := by
  induction cs with
  | nil => rfl
  | cons c cs ih =>
    rw [List.mem_cons, not_or] at h
    rw [List.cons_append, splitColon?, ih h.2]
    · rfl
    · exact fun heq => h.1 heq.symm

/-- What is divided from a joined name is the module exactly if the name of the module may be a
prefix. -/
theorem splitQualified?_join_iff {owner name : String} :
    splitQualified? (owner ++ "::" ++ name) = some (owner, name) ↔ Prefixes owner := by
  have hchars : (owner ++ "::" ++ name).toList = owner.toList ++ ':' :: ':' :: name.toList := by
    simp
  rw [Prefixes, ← @splitColons?_append_iff owner.toList name.toList, splitQualified?, hchars,
    Option.map_eq_some_iff]
  constructor
  · rintro ⟨⟨cs, ds⟩, h, heq⟩
    cases heq
    simpa using h
  · intro h
    exact ⟨_, h, by simp⟩

example : splitQualified? "A:::b" = some ("A", ":b") := by decide +kernel

/-- A joined name is always divided, and what it is divided into is the same text joined. -/
theorem exists_splitQualified?_join (owner name : String) :
    ∃ owner' name', splitQualified? (owner ++ "::" ++ name) = some (owner', name') ∧
      owner' ++ "::" ++ name' = owner ++ "::" ++ name := by
  have hchars : (owner ++ "::" ++ name).toList = owner.toList ++ ':' :: ':' :: name.toList := by
    simp
  cases h : splitColons? (owner ++ "::" ++ name).toList with
  | none =>
    rw [splitColons?_eq_none_iff, hchars] at h
    exact absurd (List.infix_append owner.toList colons name.toList) (by simpa [colons] using h)
  | some r =>
    refine ⟨String.ofList r.1, String.ofList r.2, ?_, ?_⟩
    · rw [splitQualified?, h]
      rfl
    · apply String.toList_inj.1
      rw [eq_of_splitColons? h]
      simp

end KeyedTables.Text
