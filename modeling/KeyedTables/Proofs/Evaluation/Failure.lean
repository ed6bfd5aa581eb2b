import KeyedTables.Evaluation
import Mathlib.Tactic.Lemma

/-!
# Kinds of failure

Some errors say that an expression could not have come from source text: an argument is missing, a
frame is not there. Others say that something was not found, or is not of the right kind, and may
come from every expression. Arithmetic, comparison, look-ups by name and by key fail in the second
way, unless they were given nothing at all.
-/
namespace KeyedTables

def Error.isUnderflow : Error → Bool
  | .frameUnderflow _ _ => true
  | _ => false

def Error.isMalformed : Error → Bool
  | .arity _ _ _ | .invalidExpression _ | .missingArgument _ _ => true
  | _ => false

/-- Whether an error depends on what is evaluated, and may come from any call or query. -/
def Error.isOrdinary : Error → Bool
  | .tableNotFound _ | .ambiguousTable _ _ | .unknownModule _ | .invalidTableName _ _
  | .noRowForKey _ _ | .tableInUse _ _ | .unbound _ | .typeMismatch _ _ _ | .indexOutOfRange _ _
  | .divideByZero _ | .queryDepthExceeded _ | .breakOutsideQuery => true
  | _ => false

theorem Error.isUnderflow_of_isOrdinary {e : Error} (h : e.isOrdinary = true) :
    e.isUnderflow = false := by
  cases e <;> first | rfl | cases h

theorem Error.isUnderflow_of_isMalformed {e : Error} (h : e.isMalformed = true) :
    e.isUnderflow = false := by
  cases e <;> first | rfl | cases h

variable {e : Error}

namespace Arithmetic

lemma isOrdinary_numbers {function : Builtin} {vs : List Value}
    (h : numbers function vs = .error e) : e.isOrdinary = true := by
  induction vs with
  | nil => cases h
  | cons v vs ih =>
    unfold numbers at h
    cases hv : v.number? with
    | none =>
      rw [hv] at h
      cases h
      rfl
    | some n =>
      rw [hv] at h
      cases hn : numbers function vs with
      | error e' =>
        rw [hn] at h
        cases h
        exact ih hn
      | ok ns =>
        rw [hn] at h
        cases h

lemma eq_nil_of_numbers {function : Builtin} {vs : List Value}
    (h : numbers function vs = .ok []) : vs = [] := by
  cases vs with
  | nil => rfl
  | cons v vs =>
    unfold numbers at h
    cases hv : v.number? with
    | none =>
      rw [hv] at h
      cases h
    | some n =>
      rw [hv] at h
      cases hn : numbers function vs with
      | error e' =>
        rw [hn] at h
        cases h
      | ok ns =>
        rw [hn] at h
        cases h

lemma isOrdinary_divideBy {acc : Binary64} {ds : List Binary64}
    (h : divideBy acc ds = .error e) : e.isOrdinary = true := by
  induction ds generalizing acc with
  | nil => cases h
  | cons d ds ih =>
    unfold divideBy at h
    split at h
    · cases h
      rfl
    · exact ih h

lemma isOrdinary_quotient {first : Binary64} {ds : List Binary64}
    (h : quotient first ds = .error e) : e.isOrdinary = true := by
  cases ds with
  | nil => exact isOrdinary_divideBy h
  | cons d ds => exact isOrdinary_divideBy h

/-- Of nothing there is no sum. -/
theorem kind_of_apply {function : Builtin} {vs : List Value} (h : apply function vs = .error e) :
    e.isOrdinary = true ∨ (vs = [] ∧ e.isMalformed = true) := by
  unfold apply at h
  cases hn : numbers function vs with
  | error e' =>
    rw [hn] at h
    cases h
    exact Or.inl (isOrdinary_numbers hn)
  | ok ns =>
    rw [hn] at h
    cases ns with
    | nil =>
      cases h
      exact Or.inr ⟨eq_nil_of_numbers hn, rfl⟩
    | cons first rest =>
      simp only at h
      split at h
      · cases hq : quotient first.toBinary64 (rest.map Number.toBinary64) with
        | error e' =>
          rw [hq] at h
          cases h
          exact Or.inl (isOrdinary_quotient hq)
        | ok x =>
          rw [hq] at h
          cases h
      all_goals cases h

theorem isOrdinary_compare {function : Builtin} {vs : List Value}
    (h : compare function vs = .error e) : e.isOrdinary = true := by
  unfold compare at h
  cases hn : numbers function vs with
  | error e' =>
    rw [hn] at h
    cases h
    exact isOrdinary_numbers hn
  | ok ns =>
    rw [hn] at h
    cases h

end Arithmetic

namespace Call

/-- Nothing agrees with nothing. -/
theorem kind_of_agree {function : Builtin} {vs : List Value} (h : agree function vs = .error e) :
    e.isOrdinary = true ∨ (vs = [] ∧ e.isMalformed = true) := by
  cases vs with
  | nil =>
    cases h
    exact Or.inr ⟨rfl, rfl⟩
  | cons v vs => cases function <;> cases h

theorem isOrdinary_nth {n : Int64} {xs : List Atom} (h : nth n xs = .error e) :
    e.isOrdinary = true := by
  unfold nth at h
  split at h
  · cases h
  · cases h
    rfl

end Call

theorem Table.kind_of_lookup {t : Table} {row col : Value} (h : t.lookup row col = .error e) :
    e.isOrdinary = true ∨ e = .noColumnForKey t.name col := by
  unfold Table.lookup at h
  split at h
  · cases h
    exact Or.inl rfl
  · split at h
    · cases h
      exact Or.inr rfl
    · split at h <;> cases h
      exact Or.inl rfl

namespace Catalog
variable {c : Catalog} {name : String}

lemma isOrdinary_findLocal (h : c.findLocal name = .error e) : e.isOrdinary = true := by
  unfold findLocal at h
  split at h
  · cases h
  · split at h <;> cases h <;> rfl

theorem isOrdinary_find (h : c.find name = .error e) : e.isOrdinary = true := by
  unfold find at h
  split at h
  · split at h
    · cases h
      rfl
    · split at h <;> cases h
      rfl
  · exact isOrdinary_findLocal h

theorem isOrdinary_remove (h : c.remove name = .error e) : e.isOrdinary = true := by
  unfold remove at h
  split at h
  · rename_i hf
    cases h
    exact isOrdinary_find hf
  · split at h
    · cases h
      rfl
    · split at h <;> cases h
      rfl

end Catalog

end KeyedTables
