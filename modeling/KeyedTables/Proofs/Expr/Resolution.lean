import KeyedTables.Expr.Resolution
import KeyedTables.Form.Reader
import KeyedTables.Proofs.Form.Kinds

/-!
# What is resolved

What a call, a query, its binding and its body were resolved into, given that they were resolved at
all: the parts stand in the places that the form has for them.
-/
namespace KeyedTables.Resolution
variable {scope : Scope} {c : Catalog}

/-- A query is what its parts were resolved into. -/
theorem ofQuery_eq_ok {op : Operator} {args : List Form} {e : Expr}
    (h : Expr.ofQuery c scope op args = .ok e) :
    ∃ binding body rowVariable target key test action, args = .list binding :: body ∧
      Expr.ofBinding c scope op binding = .ok (rowVariable, target, key) ∧
        checkBody op body.length = .ok () ∧
          Expr.ofBody c (⟨rowVariable, target.table?, op⟩ :: scope) body = .ok (test, action) ∧
            e = .query op rowVariable target key test action := by
  unfold Expr.ofQuery at h
  split at h
  · cases h
  · rename_i binding body
    obtain ⟨⟨rowVariable, target, key⟩, hbinding, h⟩ := bind_eq_ok h
    obtain ⟨_, hcheck, h⟩ := bind_eq_ok h
    obtain ⟨⟨test, action⟩, hbody, h⟩ := bind_eq_ok h
    cases h
    exact ⟨binding, body, rowVariable, target, key, test, action, rfl, hbinding, hcheck, hbody, rfl⟩
  · cases h

/-- The binding of a query has the row variable and the table in front, and a key if the operator
takes one. -/
theorem ofBinding_eq_ok {op : Operator} {binding : List Form} {rowVariable : String}
    {target : Target} {key : Option Expr}
    (h : Expr.ofBinding c scope op binding = .ok (rowVariable, target, key)) :
    ∃ v t, rowVariableOf op v = .ok rowVariable ∧ Expr.ofTarget c scope op t = .ok target ∧
      key.isSome = op.takesKey ∧ ((binding = [v, t] ∧ key = none) ∨
        ∃ k e, binding = [v, t, k] ∧ Expr.ofForm c scope k = .ok e ∧ key = some e) := by
  unfold Expr.ofBinding at h
  split at h
  · split at h
    · cases h
    · rename_i v t hop
      obtain ⟨_, hv, h⟩ := bind_eq_ok h
      obtain ⟨_, ht, h⟩ := bind_eq_ok h
      cases h
      exact ⟨v, t, hv, ht, (Bool.not_eq_true _ ▸ hop).symm, Or.inl ⟨rfl, rfl⟩⟩
  · split at h
    · rename_i v t k hop
      obtain ⟨_, hv, h⟩ := bind_eq_ok h
      obtain ⟨_, ht, h⟩ := bind_eq_ok h
      obtain ⟨e, hk, h⟩ := bind_eq_ok h
      cases h
      exact ⟨v, t, hv, ht, hop.symm, Or.inr ⟨k, e, rfl, hk, rfl⟩⟩
    · cases h
  · cases h

/-- The body of a query is a test and an action, if there is one. -/
theorem ofBody_eq_ok {f : Form} {fs : List Form} {test : Expr} {action : Option Expr}
    (h : Expr.ofBody c scope (f :: fs) = .ok (test, action)) :
    Expr.ofForm c scope f = .ok test ∧ ∃ es, Expr.ofForms c scope fs = .ok es ∧
      ((fs = [] ∧ action = none) ∨ (∃ e, es = [e] ∧ action = some e) ∨
        (2 ≤ fs.length ∧ action = some (.call .progn es))) := by
  cases fs with
  | nil =>
    rw [Expr.ofBody] at h
    obtain ⟨_, ht, h⟩ := bind_eq_ok h
    cases h
    refine ⟨ht, [], ?_, Or.inl ⟨rfl, rfl⟩⟩
    rw [Expr.ofForms]
  | cons g gs =>
    cases gs with
    | nil =>
      rw [Expr.ofBody] at h
      obtain ⟨_, ht, h⟩ := bind_eq_ok h
      obtain ⟨a, ha, h⟩ := bind_eq_ok h
      cases h
      refine ⟨ht, [a], ?_, Or.inr (Or.inl ⟨a, rfl, rfl⟩)⟩
      rw [Expr.ofForms, ha, Expr.ofForms]
      rfl
    | cons g' gs =>
      rw [Expr.ofBody] at h
      · obtain ⟨_, ht, h⟩ := bind_eq_ok h
        obtain ⟨es, hes, h⟩ := bind_eq_ok h
        cases h
        exact ⟨ht, es, hes, Or.inr (Or.inr ⟨by simp, rfl⟩)⟩
      · exact fun heq => by cases heq
      · exact fun a heq => by cases heq

/-- A call of a function other than `bind` is what its arguments were resolved into, and so is one
of `bind`, except for its first argument. Their number is one that the function admits. -/
theorem ofCall_eq_ok {head : Form} {args : List Form} {e : Expr}
    (h : Expr.ofCall c scope (head :: args) = .ok e) :
    ∃ name, head.symbol? = some name ∧
      ((∃ op, Operator.ofName? name = some op ∧ Expr.ofQuery c scope op args = .ok e) ∨
        (Operator.ofName? name = none ∧ ∃ function, Builtin.ofName? name = some function ∧
          checkArity function args.length = .ok () ∧
          ((function ≠ .bind ∧ (function = .ifThen → checkThen args = .ok ()) ∧
              ∃ es, Expr.ofForms c scope args = .ok es ∧ e = .call function es) ∨
            (function = .bind ∧ Expr.ofBind c scope args = .ok e)))) := by
  rw [Expr.ofCall] at h
  cases hname : head.symbol? with
  | none =>
    rw [hname] at h
    cases h
  | some name =>
    rw [hname] at h
    refine ⟨name, rfl, ?_⟩
    dsimp only at h
    cases hop : Operator.ofName? name with
    | some op =>
      rw [hop] at h
      exact Or.inl ⟨op, rfl, h⟩
    | none =>
      rw [hop] at h
      dsimp only at h
      refine Or.inr ⟨rfl, ?_⟩
      cases hf : Builtin.ofName? name with
      | none =>
        rw [hf] at h
        cases h
      | some function =>
        rw [hf] at h
        obtain ⟨_, harity, h⟩ := bind_eq_ok h
        refine ⟨function, rfl, harity, ?_⟩
        split at h
        · exact Or.inr ⟨rfl, h⟩
        · obtain ⟨_, hthen, h⟩ := bind_eq_ok h
          obtain ⟨es, hes, h⟩ := bind_eq_ok h
          cases h
          exact Or.inl ⟨by decide, fun _ => hthen, es, hes, rfl⟩
        · rename_i hbind hif
          obtain ⟨es, hes, h⟩ := bind_eq_ok h
          cases h
          exact Or.inl ⟨fun heq => hbind heq, fun heq => absurd heq hif, es, hes, rfl⟩

theorem ofBind_eq_ok {target : Form} {values : List Form} {e : Expr}
    (h : Expr.ofBind c scope (target :: values) = .ok e) :
    ∃ t es, bindTargetOf scope target = .ok t ∧ Expr.ofForms c scope values = .ok es ∧
      e = .call .bind (t :: es) := by
  rw [Expr.ofBind] at h
  obtain ⟨t, ht, h⟩ := bind_eq_ok h
  obtain ⟨es, hes, h⟩ := bind_eq_ok h
  cases h
  exact ⟨t, es, ht, hes, rfl⟩

/-- A row variable holds no colon. -/
theorem variable_of_rowVariableOf {op : Operator} {f : Form} {v : String}
    (h : rowVariableOf op f = .ok v) : f = .var v ∧ (Text.splitMember? v).isSome = false := by
  unfold rowVariableOf at h
  split at h
  · split at h
    · cases h
    · rename_i hv
      cases h
      exact ⟨rfl, Bool.not_eq_true _ ▸ hv⟩
  · cases h

theorem admits_of_checkArity {function : Builtin} {n : Nat} (h : checkArity function n = .ok ()) :
    function.arity.admits n = true := by
  unfold checkArity at h
  split at h
  · assumption
  · cases h

/-- Behind the condition of an `if` there is the symbol `then`. -/
theorem eq_then_of_checkThen {args : List Form} (h : checkThen args = .ok ()) :
    ∃ condition body, args = condition :: .atom (.symbol "then") :: body := by
  unfold checkThen at h
  split at h
  · rename_i condition mark body
    split at h
    · rename_i hmark
      rw [Form.symbol?_eq_some_iff.1 hmark]
      exact ⟨condition, body, rfl⟩
    · cases h
  · cases h

theorem ne_nil_of_checkBody {op : Operator} {body : List Form}
    (h : checkBody op body.length = .ok ()) : body ≠ [] := by
  rintro rfl
  cases h

/-- The binder found at a depth is the one there. -/
theorem getElem?_of_find? {name : String} {depth : Nat} {b : Binder}
    (h : scope.find? name = some (depth, b)) : scope[depth]? = some b := by
  induction scope generalizing depth with
  | nil => cases h
  | cons b' scope ih =>
    rw [Scope.find?] at h
    split at h
    · cases h
      rfl
    · obtain ⟨⟨d, b₀⟩, hd, heq⟩ := Option.map_eq_some_iff.1 h
      cases heq
      exact ih hd

def resolvesTo (c : Catalog) (source : String) (p : Expr → Bool) : Bool :=
  match Form.readOne source with
  | .error _ => false
  | .ok f =>
    match Expr.ofForm c [] f with
    | .error _ => false
    | .ok e => p e

theorem exists_of_resolvesTo {source : String} {p : Expr → Bool}
    (h : resolvesTo c source p = true) :
    ∃ f e, Form.readOne source = .ok f ∧ Expr.ofForm c [] f = .ok e ∧ p e = true := by
  unfold resolvesTo at h
  split at h
  · cases h
  · rename_i f hf
    split at h
    · cases h
    · rename_i e he
      exact ⟨f, e, hf, he, h⟩

end KeyedTables.Resolution
