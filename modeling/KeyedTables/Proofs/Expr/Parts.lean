import KeyedTables.Expr.Basic
import KeyedTables.Expr.Builtin
import Mathlib.Tactic.Lemma

/-!
# Parts of expressions

The expressions that an expression is made of, itself included: arguments, the names and keys of
tables, tests and actions. What is of interest about them is whether a table may be removed in one,
and which of them are the keys of queries.
-/
namespace KeyedTables.Expr

mutual

/-- An expression and those it is made of. -/
def parts : Expr → List Expr
  | .const v => [.const v]
  | .localVar x => [.localVar x]
  | .globalVar x => [.globalVar x]
  | .call function args => .call function args :: partsOfAll args
  | .rowKey depth => [.rowKey depth]
  | .column depth key ordinal => [.column depth key ordinal]
  | .query op rowVariable target key test action =>
    .query op rowVariable target key test action ::
      (partsOfTarget target ++ (partsOfOption key ++ (parts test ++ partsOfOption action)))

def partsOfAll : List Expr → List Expr
  | [] => []
  | e :: es => parts e ++ partsOfAll es

def partsOfTarget : Target → List Expr
  | .known _ => []
  | .named e => parts e

def partsOfOption : Option Expr → List Expr
  | none => []
  | some e => parts e

end

def isRemoval : Expr → Bool
  | .call .undefineTable _ => true
  | _ => false

def key? : Expr → Option (String × Expr)
  | .query _ rowVariable _ (some key) _ _ => some (rowVariable, key)
  | _ => none

def removes (e : Expr) : Bool := e.parts.any isRemoval

def keys (e : Expr) : List (String × Expr) := e.parts.filterMap key?

section
variable {a e key test action : Expr} {args : List Expr} {function : Builtin} {op : Operator}
  {rowVariable : String} {target : Target} {optKey optAction : Option Expr}

theorem self_mem_parts (e : Expr) : e ∈ e.parts := by
  cases e <;> exact List.mem_cons_self

lemma partsOfAll_eq_flatMap (es : List Expr) : partsOfAll es = es.flatMap parts := by
  induction es with
  | nil => rfl
  | cons e es ih =>
    rw [List.flatMap_cons, ← ih]
    rfl

lemma parts_call (function : Builtin) (args : List Expr) :
    (call function args).parts = call function args :: args.flatMap parts :=
  congrArg (List.cons _) (partsOfAll_eq_flatMap args)

lemma parts_query (op : Operator) (rowVariable : String) (target : Target) (key : Option Expr)
    (test : Expr) (action : Option Expr) :
    (query op rowVariable target key test action).parts =
      query op rowVariable target key test action ::
        (partsOfTarget target ++ (partsOfOption key ++ (parts test ++ partsOfOption action))) := rfl

theorem parts_subset_call (h : a ∈ args) : a.parts ⊆ (call function args).parts := by
  intro x hx
  rw [parts_call]
  exact List.mem_cons_of_mem _ (List.mem_flatMap.2 ⟨a, h, hx⟩)

theorem parts_target_subset :
    a.parts ⊆ (query op rowVariable (.named a) optKey test optAction).parts := by
  intro x hx
  rw [parts_query]
  exact List.mem_cons_of_mem _ (List.mem_append_left _ hx)

theorem parts_key_subset :
    key.parts ⊆ (query op rowVariable target (some key) test optAction).parts := by
  intro x hx
  rw [parts_query]
  exact List.mem_cons_of_mem _ (List.mem_append_right _ (List.mem_append_left _ hx))

theorem parts_test_subset :
    test.parts ⊆ (query op rowVariable target optKey test optAction).parts := by
  intro x hx
  simp [parts_query, hx]

theorem parts_action_subset :
    action.parts ⊆ (query op rowVariable target optKey test (some action)).parts := by
  intro x hx
  have hx : x ∈ partsOfOption (some action) := hx
  simp [parts_query, hx]

theorem removes_of_subset (h : a.parts ⊆ e.parts) (ha : a.removes = true) : e.removes = true := by
  obtain ⟨x, hx, hremoval⟩ := List.any_eq_true.1 ha
  exact List.any_eq_true.2 ⟨x, h hx, hremoval⟩

theorem removes_undefineTable (args : List Expr) : (call .undefineTable args).removes = true :=
  List.any_eq_true.2 ⟨_, self_mem_parts _, rfl⟩

theorem removes_call_eq_false (hfunction : function ≠ .undefineTable)
    (hargs : ∀ a ∈ args, a.removes = false) : (call function args).removes = false := by
  rw [removes, parts_call, List.any_cons, List.any_flatMap, Bool.or_eq_false_iff]
  constructor
  · unfold isRemoval
    split
    · rename_i heq
      cases heq
      exact absurd rfl hfunction
    · rfl
  · exact List.any_eq_false.2 fun a ha => by simpa [removes] using hargs a ha

theorem removes_query_eq_false (htarget : ∀ e, target = .named e → e.removes = false)
    (hkey : ∀ e, optKey = some e → e.removes = false) (htest : test.removes = false)
    (haction : ∀ e, optAction = some e → e.removes = false) :
    (query op rowVariable target optKey test optAction).removes = false := by
  have hnamed : (partsOfTarget target).any isRemoval = false := by
    cases target with
    | known t => rfl
    | named e => exact htarget e rfl
  have hoption : ∀ o : Option Expr, (∀ e, o = some e → e.removes = false) →
      (partsOfOption o).any isRemoval = false := by
    intro o ho
    cases o with
    | none => rfl
    | some e => exact ho e rfl
  rw [removes] at htest
  rw [removes, parts_query]
  simp [isRemoval, hnamed, hoption _ hkey, hoption _ haction, htest]

theorem keys_subset (h : a.parts ⊆ e.parts) : a.keys ⊆ e.keys := by
  intro k hk
  obtain ⟨x, hx, hkey⟩ := List.mem_filterMap.1 hk
  exact List.mem_filterMap.2 ⟨x, h hx, hkey⟩

theorem key_mem_keys :
    (rowVariable, key) ∈ (query op rowVariable target (some key) test optAction).keys :=
  List.mem_filterMap.2 ⟨_, self_mem_parts _, rfl⟩

end

end KeyedTables.Expr
