import KeyedTables.Proofs.Expr.Derivation
import KeyedTables.Proofs.Text.Split

/-!
# Positions

Where in a form something is evaluated, and where in an expression it is found again. On the way
there the row variables of queries come into scope: the test and the action of a query stand in the
scope of its row variable, its table and its key do not. What stands in a form at a position is
resolved in just the scope that the position has, and into what stands there in the expression.
-/
namespace KeyedTables

/-- What stands in a form or in an expression, at any depth, with the row variables of the queries
around it, the innermost first. -/
inductive Nested {α : Type} (child : α → List String → α → Prop) : α → List String → α → Prop
  | self (a : α) : Nested child a [] a
  | child {a b x : α} {inner rows : List String} :
      child a inner b → Nested child b rows x → Nested child a (rows ++ inner) x

lemma Nested.trans {α : Type} {child : α → List String → α → Prop} {a b x : α}
    {inner rows : List String} (h : Nested child a inner b) (h' : Nested child b rows x) :
    Nested child a (rows ++ inner) x := by
  induction h with
  | self a =>
    rw [List.append_nil]
    exact h'
  | child hchild _ ih =>
    rw [← List.append_assoc]
    exact .child hchild (ih h')

/-- The forms in expression position in a call or a query: the arguments but for the first one of
`bind`, the table if it is no atom, and the key; test and action in the scope of the row variable. -/
inductive Form.Child : Form → List String → Form → Prop
  | argument {f head g : Form} {args : List Form} :
      f.items? = some (head :: args) → (∀ name, head = .atom (.symbol name) →
        Operator.ofName? name = none ∧ name ≠ Builtin.bind.name) → g ∈ args → Child f [] g
  | value {f g target : Form} {values : List Form} :
      f.items? = some (.atom (.symbol Builtin.bind.name) :: target :: values) → g ∈ values →
        Child f [] g
  | table {f v t : Form} {name : String} {op : Operator} {keys body : List Form} :
      f.items? = some (.atom (.symbol name) :: .list (v :: t :: keys) :: body) →
        Operator.ofName? name = some op → t.atom? = none → Child f [] t
  | key {f v t k : Form} {name : String} {op : Operator} {keys body : List Form} :
      f.items? = some (.atom (.symbol name) :: .list (v :: t :: keys) :: body) →
        Operator.ofName? name = some op → k ∈ keys → Child f [] k
  | body {f g : Form} {v name : String} {op : Operator} {rest body : List Form} :
      f.items? = some (.atom (.symbol name) :: .list (.var v :: rest) :: body) →
        Operator.ofName? name = some op → g ∈ body → Child f [v] g

abbrev Form.Within : Form → List String → Form → Prop := Nested Form.Child

def Form.Binds (f : Form) (n : String) : Prop :=
  ∃ values, f.items? = some (.atom (.symbol Builtin.bind.name) :: .var n :: values)

inductive Expr.Child : Expr → List String → Expr → Prop
  | argument {function : Builtin} {args : List Expr} {a : Expr} :
      a ∈ args → Child (.call function args) [] a
  | table {op : Operator} {v : String} {e test : Expr} {key action : Option Expr} :
      Child (.query op v (.named e) key test action) [] e
  | key {op : Operator} {v : String} {target : Target} {k test : Expr} {action : Option Expr} :
      Child (.query op v target (some k) test action) [] k
  | test {op : Operator} {v : String} {target : Target} {key : Option Expr} {test : Expr}
      {action : Option Expr} : Child (.query op v target key test action) [v] test
  | action {op : Operator} {v : String} {target : Target} {key : Option Expr} {test a : Expr} :
      Child (.query op v target key test (some a)) [v] a

abbrev Expr.Within : Expr → List String → Expr → Prop := Nested Expr.Child

lemma Form.sizeOf_of_items? {f : Form} {items : List Form} (h : f.items? = some items) :
    sizeOf f = 1 + sizeOf items := by
  cases f with
  | list _ =>
    cases h
    exact Form.list.sizeOf_spec items
  | immediate _ =>
    cases h
    exact Form.immediate.sizeOf_spec items
  | atom _ | var _ | globalVar _ => cases h

theorem Form.Child.sizeOf_lt {f g : Form} {rows : List String} (h : f.Child rows g) :
    sizeOf g < sizeOf f := by
  cases h with
  | argument hf _ hmem | value hf hmem | key hf _ hmem | body hf _ hmem =>
    have hlt := List.sizeOf_lt_of_mem hmem
    simp only [Form.sizeOf_of_items? hf, List.cons.sizeOf_spec, Form.list.sizeOf_spec]
    omega
  | table hf =>
    simp only [Form.sizeOf_of_items? hf, List.cons.sizeOf_spec, Form.list.sizeOf_spec]
    omega

namespace Scope
variable {scope : Scope} {n v : String}

def rowVariables (scope : Scope) : List String := scope.map Binder.rowVariable

@[simp] theorem rowVariables_nil : rowVariables [] = [] := rfl

@[simp] theorem rowVariables_cons (b : Binder) (scope : Scope) :
    rowVariables (b :: scope) = b.rowVariable :: rowVariables scope := rfl

theorem find?_eq_none_iff : scope.find? n = none ↔ n ∉ scope.rowVariables := by
  induction scope with
  | nil => simp [find?]
  | cons b scope ih =>
    rw [find?, rowVariables_cons, List.mem_cons, not_or, ← ih]
    by_cases hb : b.rowVariable = n
    · simp [hb]
    · simp [hb, Ne.symm hb]

theorem rowPart_of_plain (hv : Text.splitMember? v = none) : rowPart v = v := by
  rw [rowPart, hv]
  rfl

/-- A column of a row variable has the row variable in front. -/
theorem rowPart_column (hv : Text.splitMember? v = none) (column : String) :
    rowPart (v ++ ":" ++ column) = v := by
  have hchars : (v ++ ":" ++ column).toList = v.toList ++ ':' :: column.toList := by simp
  rw [Text.splitMember?, Option.map_eq_none_iff, Text.splitColon?_eq_none_iff] at hv
  rw [rowPart, Text.splitMember?, hchars, Text.splitColon?_append hv]
  simp

theorem bindable_eq_ok_iff : scope.bindable n = .ok () ↔ rowPart n ∉ scope.rowVariables := by
  rw [bindable, ← find?_eq_none_iff]
  cases scope.find? (rowPart n) with
  | none => simp
  | some r => simp

/-- A variable stands for a local one only if it is no row variable, nor a column of one. -/
theorem resolveVar_eq_ok {e : Expr} (h : scope.resolveVar n = .ok e) :
    (e = .localVar n ∧ rowPart n ∉ scope.rowVariables) ∨ (∃ depth, e = .rowKey depth) ∨
      ∃ depth key ordinal, e = .column depth key ordinal := by
  unfold resolveVar at h
  split at h
  · cases h
    exact Or.inr (Or.inl ⟨_, rfl⟩)
  · rename_i hnone
    split at h
    · rename_i hplain
      cases h
      exact Or.inl ⟨rfl, by rwa [rowPart_of_plain hplain, ← find?_eq_none_iff]⟩
    · rename_i row column hsplit
      split at h
      · rename_i hrow
        cases h
        refine Or.inl ⟨rfl, ?_⟩
        rw [rowPart, hsplit]
        exact find?_eq_none_iff.1 hrow
      · split at h
        · cases h
          exact Or.inr (Or.inr ⟨_, _, _, rfl⟩)
        · split at h
          · cases h
            exact Or.inr (Or.inr ⟨_, _, _, rfl⟩)
          · cases h

/-- Row variables hold no colon, so that a name with one is at most a column. -/
theorem resolveVar_of_not_mem (hplain : ∀ v ∈ scope.rowVariables, Text.splitMember? v = none)
    (h : rowPart n ∉ scope.rowVariables) : scope.resolveVar n = .ok (.localVar n) := by
  cases hsplit : Text.splitMember? n with
  | none =>
    rw [rowPart_of_plain hsplit, ← find?_eq_none_iff] at h
    simp [resolveVar, h, hsplit]
  | some r =>
    obtain ⟨row, column⟩ := r
    have hnone : scope.find? n = none := find?_eq_none_iff.2 fun hmem => by
      rw [hplain n hmem] at hsplit
      cases hsplit
    have hrow : scope.find? row = none := by
      rw [rowPart, hsplit] at h
      exact find?_eq_none_iff.2 h
    simp [resolveVar, hnone, hsplit, hrow]

end Scope

namespace Resolution
variable {c : Catalog} {scope : Scope} {f g : Form} {e : Expr} {n : String} {rows : List String}

/-- Also where several forms make up the action, each stands in the scope of the row variable. -/
theorem within_actionOf {op : Operator} {v : String} {target : Target} {key : Option Expr}
    {test : Expr} {es : List Expr} (he : e ∈ es) :
    (Expr.query op v target key test (Expr.actionOf es)).Within [v] e :=
  match es, he with
  | [_], he => by
    cases List.mem_singleton.1 he
    exact .child Expr.Child.action (.self e)
  | _ :: _ :: _, he => .child Expr.Child.action (.child (Expr.Child.argument he) (.self e))

/-- Every form in expression position stands for a part of the expression, in a scope that has grown
by the row variables around it. -/
theorem resolves_child (h : Resolves c scope f e) (hg : f.Child rows g) :
    ∃ scope' e', Resolves c scope' g e' ∧ scope'.rowVariables = rows ++ scope.rowVariables ∧
      (∀ v ∈ rows, Text.splitMember? v = none) ∧ e.Within rows e' := by
  have hbind : Operator.ofName? Builtin.bind.name = none := by decide
  -- a form is one kind of call only, so the derivation and the position must agree on it
  cases h with
  | atom | globalVar | var _ =>
    cases hg with
    | argument hf | value hf | table hf | key hf | body hf => cases hf
  | call hf hop hfunction hne _ _ hlength hargs =>
    cases hg with
    | argument hf' _ hmem =>
      cases hf.symm.trans hf'
      obtain ⟨a, hp⟩ := exists_mem_zip_of_mem_left hlength hmem
      exact ⟨scope, a, hargs _ hp, rfl, fun _ hv => (by cases hv),
        .child (.argument (List.of_mem_zip hp).2) (.self a)⟩
    | value hf' _ =>
      cases hf.symm.trans hf'
      rw [Builtin.ofName?_name] at hfunction
      cases hfunction
      exact absurd rfl hne
    | table hf' hop' | key hf' hop' | body hf' hop' =>
      cases hf.symm.trans hf'
      cases hop.symm.trans hop'
  | bind hf _ _ hlength hvalues =>
    cases hg with
    | argument hf' hother =>
      cases hf.symm.trans hf'
      exact absurd rfl (hother _ rfl).2
    | value hf' hmem =>
      cases hf.symm.trans hf'
      obtain ⟨a, hp⟩ := exists_mem_zip_of_mem_left hlength hmem
      exact ⟨scope, a, hvalues _ hp, rfl, fun _ hv => (by cases hv),
        .child (.argument (List.mem_cons_of_mem _ (List.of_mem_zip hp).2)) (.self a)⟩
    | table hf' hop' | key hf' hop' | body hf' hop' =>
      cases hf.symm.trans hf'
      cases hbind.symm.trans hop'
  | @query _ _ t test _ v op keyForm actions target key testExpr es hf hop hplain hkeyForm hkey
      hknown _ htarget hkeys htest hlength hactions =>
    cases hg with
    | argument hf' hother =>
      cases hf.symm.trans hf'
      cases hop.symm.trans (hother _ rfl).1
    | value hf' _ =>
      cases hf.symm.trans hf'
      cases hbind.symm.trans hop
    | table hf' _ hatom =>
      cases hf.symm.trans hf'
      cases target with
      | known u =>
        obtain ⟨_, rfl, _⟩ := hknown u rfl
        cases hatom
      | named a =>
        exact ⟨scope, a, htarget a rfl, rfl, fun _ hv => (by cases hv), .child .table (.self a)⟩
    | key hf' _ hmem =>
      cases hf.symm.trans hf'
      have hk := Option.mem_toList.1 hmem
      obtain ⟨a, rfl⟩ := exists_key hkey hkeyForm hk
      exact ⟨scope, a, hkeys _ a hk rfl, rfl, fun _ hv => (by cases hv), .child .key (.self a)⟩
    | body hf' _ hmem =>
      cases hf.symm.trans hf'
      have hrow : ∀ x ∈ [v], Text.splitMember? x = none := fun x hx => by
        rw [List.mem_singleton.1 hx]
        exact Option.not_isSome_iff_eq_none.1 (Bool.not_eq_true _ ▸ hplain)
      obtain rfl | hmem := List.mem_cons.1 hmem
      · exact ⟨_, testExpr, htest, rfl, hrow, .child .test (.self testExpr)⟩
      · obtain ⟨a, hp⟩ := exists_mem_zip_of_mem_left hlength hmem
        exact ⟨_, a, hactions _ hp, rfl, hrow, within_actionOf (List.of_mem_zip hp).2⟩

theorem resolves_within (h : Resolves c scope f e) (hg : f.Within rows g) :
    ∃ scope' e', Resolves c scope' g e' ∧ scope'.rowVariables = rows ++ scope.rowVariables ∧
      (∀ v ∈ rows, Text.splitMember? v = none) ∧ e.Within rows e' := by
  induction hg generalizing scope e with
  | self f => exact ⟨scope, e, h, rfl, fun _ hv => (by cases hv), .self e⟩
  | child hchild _ ih =>
    obtain ⟨scope₁, e₁, h₁, hscope₁, hplain₁, hwithin₁⟩ := resolves_child h hchild
    obtain ⟨scope₂, e₂, h₂, hscope₂, hplain₂, hwithin₂⟩ := ih h₁
    refine ⟨scope₂, e₂, h₂, ?_, fun v hv => ?_, hwithin₁.trans hwithin₂⟩
    · rw [hscope₂, hscope₁, List.append_assoc]
    · exact (List.mem_append.1 hv).elim (hplain₂ v) (hplain₁ v)

/-- What is bound is no row variable of the scope, nor a column of one. -/
theorem not_mem_of_binds (h : Resolves c scope f e) (hf : f.Binds n) :
    Scope.rowPart n ∉ scope.rowVariables := by
  obtain ⟨values, hf⟩ := hf
  cases h with
  | atom | globalVar | var _ => cases hf
  | call hf' _ hfunction hne =>
    cases hf'.symm.trans hf
    rw [Builtin.ofName?_name] at hfunction
    cases hfunction
    exact absurd rfl hne
  | bind hf' _ ht =>
    cases hf'.symm.trans hf
    rw [bindTargetOf] at ht
    split at ht
    · cases ht
    · rename_i hok
      exact Scope.bindable_eq_ok_iff.1 hok
  | query hf' hop =>
    cases hf'.symm.trans hf

end Resolution

end KeyedTables
