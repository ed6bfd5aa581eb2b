/-!
# Composite names

A table name may carry its module in front of two colons, a variable a column behind one colon. Both
are divided where the separator stands first.
-/
namespace KeyedTables.Text

/-- What stands before and behind the first two adjacent colons. -/
def splitColons? : List Char → Option (List Char × List Char)
  | ':' :: ':' :: cs => some ([], cs)
  | c :: cs => (splitColons? cs).map fun r => (c :: r.1, r.2)
  | [] => none

/-- What stands before and behind the first colon. -/
def splitColon? : List Char → Option (List Char × List Char)
  | ':' :: cs => some ([], cs)
  | c :: cs => (splitColon? cs).map fun r => (c :: r.1, r.2)
  | [] => none

/-- Module and local name of a qualified table name. -/
def splitQualified? (name : String) : Option (String × String) :=
  (splitColons? name.toList).map fun r => (String.ofList r.1, String.ofList r.2)

/-- Variable and column of a name that has a column. -/
def splitMember? (name : String) : Option (String × String) :=
  (splitColon? name.toList).map fun r => (String.ofList r.1, String.ofList r.2)

theorem eq_of_splitColons? {cs : List Char} {r : List Char × List Char}
    (h : splitColons? cs = some r) : cs = r.1 ++ ':' :: ':' :: r.2 := by
  fun_induction splitColons? cs generalizing r with
  | case1 => cases h; rfl
  | case2 c cs _ ih =>
    obtain ⟨s, hs, rfl⟩ := Option.map_eq_some_iff.1 h
    simp [ih hs]
  | case3 => simp at h

theorem splitColon?_eq_none_iff {cs : List Char} : splitColon? cs = none ↔ ':' ∉ cs := by
  fun_induction splitColon? cs with
  | case1 => simp
  | case2 c cs hc ih =>
    have : ':' ≠ c := fun h => hc h.symm
    simp [ih, this]
  | case3 => simp

end KeyedTables.Text
