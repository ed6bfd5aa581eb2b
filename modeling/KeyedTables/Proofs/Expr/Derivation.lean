import KeyedTables.Proofs.Expr.Resolution
import Mathlib.Data.List.Basic

/-!
# Derivations

Resolution as a relation between scopes, forms and expressions, with one rule for each kind of form.
Arguments stand for expressions one by one; the table and the key of a query do so in the scope
outside of it, the test and the action in the scope with its binder. Whatever a form is resolved
into has a derivation, so that what is true of all resolved forms is proved by induction on the
rules.
-/
namespace KeyedTables

/-- What is called in a form, be it marked for immediate evaluation or not: the items. -/
def Form.items? : Form → Option (List Form)
  | .list items | .immediate items => some items
  | _ => none

/-- What the forms behind the test of a query become: nothing, one expression, or several to be
evaluated one after another. -/
def Expr.actionOf : List Expr → Option Expr
  | [] => none
  | [e] => some e
  | es => some (.call .progn es)

theorem Expr.mem_or_eq_progn_of_actionOf {es : List Expr} {a : Expr}
    (h : Expr.actionOf es = some a) : a ∈ es ∨ a = .call .progn es := by
  unfold Expr.actionOf at h
  split at h
  · cases h
  · cases h
    exact Or.inl (List.mem_singleton.2 rfl)
  · cases h
    exact Or.inr rfl

/-- The expression that a form stands for in a scope. -/
inductive Resolves (c : Catalog) : Scope → Form → Expr → Prop
  | atom {scope : Scope} {a : Atom} : Resolves c scope (.atom a) (.const (.atom a))
  | globalVar {scope : Scope} {x : String} : Resolves c scope (.globalVar x) (.globalVar x)
  | var {scope : Scope} {x : String} {e : Expr} :
      scope.resolveVar x = .ok e → Resolves c scope (.var x) e
  | call {scope : Scope} {f : Form} {name : String} {function : Builtin} {args : List Form}
      {es : List Expr} :
      f.items? = some (.atom (.symbol name) :: args) → Operator.ofName? name = none →
        Builtin.ofName? name = some function → function ≠ .bind →
          function.arity.admits args.length = true →
            (function = .ifThen → checkThen args = .ok ()) → args.length = es.length →
              (∀ p ∈ args.zip es, Resolves c scope p.1 p.2) → Resolves c scope f (.call function es)
  | bind {scope : Scope} {f target : Form} {values : List Form} {t : Expr} {es : List Expr} :
      f.items? = some (.atom (.symbol Builtin.bind.name) :: target :: values) →
        Builtin.bind.arity.admits (target :: values).length = true →
          bindTargetOf scope target = .ok t → values.length = es.length →
            (∀ p ∈ values.zip es, Resolves c scope p.1 p.2) →
              Resolves c scope f (.call .bind (t :: es))
  | query {scope : Scope} {f t test : Form} {name v : String} {op : Operator}
      {keyForm : Option Form} {actions : List Form} {target : Target} {key : Option Expr}
      {testExpr : Expr} {es : List Expr} :
      f.items? = some (.atom (.symbol name) :: .list (.var v :: t :: keyForm.toList) ::
        test :: actions) →
        Operator.ofName? name = some op → (Text.splitMember? v).isSome = false →
          keyForm.isSome = op.takesKey → key.isSome = op.takesKey →
            (∀ u, target = .known u → ∃ name, t = .atom (.symbol name) ∧ c.find name = .ok u) →
              (∀ e, target = .named e → t.atom? = none) →
                (∀ e, target = .named e → Resolves c scope t e) →
                  (∀ k e, keyForm = some k → key = some e → Resolves c scope k e) →
                    Resolves c (⟨v, target.table?, op⟩ :: scope) test testExpr →
                      actions.length = es.length →
                        (∀ p ∈ actions.zip es,
                          Resolves c (⟨v, target.table?, op⟩ :: scope) p.1 p.2) →
                            Resolves c scope f
                              (.query op v target key testExpr (Expr.actionOf es))

namespace Resolution
variable {c : Catalog} {scope : Scope}

lemma length_of_ofForms {fs : List Form} {es : List Expr} (h : Expr.ofForms c scope fs = .ok es) :
    fs.length = es.length := by
  induction fs generalizing es with
  | nil =>
    rw [Expr.ofForms] at h
    cases h
    rfl
  | cons f fs ih =>
    rw [Expr.ofForms] at h
    obtain ⟨_, _, h⟩ := bind_eq_ok h
    obtain ⟨_, hes, h⟩ := bind_eq_ok h
    cases h
    rw [List.length_cons, List.length_cons, ih hes]

section Items
variable {α β : Type} {xs : List α} {ys : List β}

/-- Of two lists of one length, every item of the second one stands beside one of the first. -/
theorem exists_mem_zip_of_mem_right (hlength : xs.length = ys.length) {y : β} (hy : y ∈ ys) :
    ∃ x, (x, y) ∈ xs.zip ys := by
  rw [← List.map_snd_zip (Nat.le_of_eq hlength.symm)] at hy
  obtain ⟨⟨x, _⟩, hp, rfl⟩ := List.mem_map.1 hy
  exact ⟨x, hp⟩

theorem exists_mem_zip_of_mem_left (hlength : xs.length = ys.length) {x : α} (hx : x ∈ xs) :
    ∃ y, (x, y) ∈ xs.zip ys := by
  rw [← List.map_fst_zip (Nat.le_of_eq hlength)] at hx
  obtain ⟨⟨_, y⟩, hp, rfl⟩ := List.mem_map.1 hx
  exact ⟨y, hp⟩

/-- A key stands for something given. -/
theorem exists_key {x : Option α} {y : Option β} {given : Bool} (hx : x.isSome = given)
    (hy : y.isSome = given) {b : β} (hb : y = some b) : ∃ a, x = some a := by
  rw [← Option.isSome_iff_exists, hx, ← hy, hb]
  rfl

end Items

lemma find_of_ofSymbol {op : Operator} {name : String} {target : Target}
    (h : Target.ofSymbol c op name = .ok target) :
    ∃ t, target = .known t ∧ c.find name = .ok t := by
  unfold Target.ofSymbol at h
  split at h
  · rename_i t hfind
    cases h
    exact ⟨t, rfl, hfind⟩
  · cases h
  · cases h

/-- A table that is given by an atom is a known one. -/
theorem find_of_ofTarget_atom {op : Operator} {a : Atom} {target : Target}
    (h : Expr.ofTarget c scope op (.atom a) = .ok target) :
    ∃ name u, a = .symbol name ∧ target = .known u ∧ c.find name = .ok u := by
  cases a with
  | symbol name =>
    rw [Expr.ofTarget] at h
    obtain ⟨u, rfl, hfind⟩ := find_of_ofSymbol h
    exact ⟨name, u, rfl, rfl, hfind⟩
  | string s => cases h
  | integer i => cases h
  | float x => cases h

/-- Any other form for a table yields its name. -/
theorem ofTarget_eq {op : Operator} {t : Form} (ht : t.atom? = none) :
    Expr.ofTarget c scope op t = Expr.ofForm c scope t >>= fun e => .ok (.named e) := by
  cases t with
  | atom a => cases ht
  | var x => rw [Expr.ofTarget, Expr.ofForm]
  | globalVar x =>
    rw [Expr.ofTarget, Expr.ofForm]
    rfl
  | list items => rw [Expr.ofTarget, Expr.ofForm]
  | immediate items => rw [Expr.ofTarget, Expr.ofForm]

lemma actionOf_of_ofBody {test : Form} {actions : List Form} {testExpr : Expr}
    {action : Option Expr} (h : Expr.ofBody c scope (test :: actions) = .ok (testExpr, action)) :
    Expr.ofForm c scope test = .ok testExpr ∧ ∃ es, Expr.ofForms c scope actions = .ok es ∧
      action = Expr.actionOf es := by
  obtain ⟨htest, es, hes, haction⟩ := ofBody_eq_ok h
  refine ⟨htest, es, hes, ?_⟩
  have hlength := length_of_ofForms hes
  obtain ⟨rfl, rfl⟩ | ⟨e, rfl, rfl⟩ | ⟨htwo, rfl⟩ := haction
  · cases List.length_eq_zero_iff.1 hlength.symm
    rfl
  · rfl
  · match es, hlength ▸ htwo with
    | _ :: _ :: _, _ => rfl

/-- The table of a query is a known one, or named by what its form stands for. -/
theorem resolves_target {op : Operator} {t : Form} {target : Target}
    (hform : ∀ e, Expr.ofForm c scope t = .ok e → Resolves c scope t e)
    (h : Expr.ofTarget c scope op t = .ok target) :
    (∀ u, target = .known u → ∃ name, t = .atom (.symbol name) ∧ c.find name = .ok u) ∧
      (∀ e, target = .named e → t.atom? = none) ∧
        ∀ e, target = .named e → Resolves c scope t e := by
  cases ht : t.atom? with
  | some a =>
    rw [Form.atom?_eq_some_iff.1 ht] at h ⊢
    obtain ⟨name, u, rfl, rfl, hfind⟩ := find_of_ofTarget_atom h
    refine ⟨fun u' hu => ⟨name, rfl, ?_⟩, fun _ he => (by cases he), fun _ he => (by cases he)⟩
    cases hu
    exact hfind
  | none =>
    rw [ofTarget_eq ht] at h
    obtain ⟨e, he, h⟩ := bind_eq_ok h
    cases h
    refine ⟨fun u hu => (by cases hu), fun _ _ => rfl, fun e' he' => ?_⟩
    cases he'
    exact hform e he

mutual

theorem resolves_form : ∀ (f : Form) {scope : Scope} {e : Expr},
    Expr.ofForm c scope f = .ok e → Resolves c scope f e
  | .atom a, scope, e, h => by
    rw [Expr.ofForm] at h
    cases h
    exact .atom
  | .var x, scope, e, h => by
    rw [Expr.ofForm] at h
    exact .var h
  | .globalVar x, scope, e, h => by
    rw [Expr.ofForm] at h
    cases h
    exact .globalVar
  | .list items, scope, e, h => by
    rw [Expr.ofForm] at h
    exact resolves_call items h rfl
  | .immediate items, scope, e, h => by
    rw [Expr.ofForm] at h
    exact resolves_call items h rfl

theorem resolves_call : ∀ (items : List Form) {scope : Scope} {e : Expr},
    Expr.ofCall c scope items = .ok e → ∀ {f : Form}, f.items? = some items → Resolves c scope f e
  | [], scope, e, h, _, _ => by
    rw [Expr.ofCall] at h
    cases h
  | head :: args, scope, e, h, f, hf => by
    obtain ⟨name, hname, ⟨op, hop, h⟩ | ⟨hop, function, hfunction, hcheck, h⟩⟩ := ofCall_eq_ok h
    · rw [Form.symbol?_eq_some_iff.1 hname] at hf
      exact resolves_query op args h hop hf
    · rw [Form.symbol?_eq_some_iff.1 hname] at hf
      have harity := admits_of_checkArity hcheck
      obtain ⟨hbind, hthen, es, hes, rfl⟩ | ⟨rfl, h⟩ := h
      · exact .call hf hop hfunction hbind harity hthen (length_of_ofForms hes)
          (resolves_forms args hes)
      · rw [← Builtin.name_of_ofName? hfunction] at hf
        exact resolves_bind args harity h hf

theorem resolves_bind : ∀ (args : List Form) {scope : Scope} {e : Expr},
    Builtin.bind.arity.admits args.length = true → Expr.ofBind c scope args = .ok e →
      ∀ {f : Form}, f.items? = some (.atom (.symbol Builtin.bind.name) :: args) →
        Resolves c scope f e
  | [], scope, e, _, h, _, _ => by
    rw [Expr.ofBind] at h
    cases h
  | target :: values, scope, e, harity, h, f, hf => by
    obtain ⟨t, es, ht, hes, rfl⟩ := ofBind_eq_ok h
    exact .bind hf harity ht (length_of_ofForms hes) (resolves_forms values hes)

theorem resolves_forms : ∀ (fs : List Form) {scope : Scope} {es : List Expr},
    Expr.ofForms c scope fs = .ok es → ∀ p ∈ fs.zip es, Resolves c scope p.1 p.2
  | [], scope, es, h => fun p hp => by cases hp
  | f :: fs, scope, es, h => by
    rw [Expr.ofForms] at h
    obtain ⟨e, he, h⟩ := bind_eq_ok h
    obtain ⟨es', hes, h⟩ := bind_eq_ok h
    cases h
    exact List.forall_mem_cons.2 ⟨resolves_form f he, resolves_forms fs hes⟩

theorem resolves_query (op : Operator) : ∀ (args : List Form) {scope : Scope} {e : Expr},
    Expr.ofQuery c scope op args = .ok e → ∀ {name : String} {f : Form},
      Operator.ofName? name = some op → f.items? = some (.atom (.symbol name) :: args) →
        Resolves c scope f e
  | .list [v, t] :: test :: actions, scope, e, h, name, f, hop, hf => by
    obtain ⟨_, _, rowVariable, target, key, testExpr, action, heq, hbinding, _, hbody, rfl⟩ :=
      ofQuery_eq_ok h
    cases heq
    obtain ⟨_, _, hv, ht, hgiven, ⟨heq, rfl⟩ | ⟨_, _, heq, _⟩⟩ := ofBinding_eq_ok hbinding
    · cases heq
      obtain ⟨rfl, hplain⟩ := variable_of_rowVariableOf hv
      obtain ⟨htest, es, hes, rfl⟩ := actionOf_of_ofBody hbody
      obtain ⟨hknown, hnone, hnamed⟩ := resolves_target (fun e he => resolves_form t he) ht
      change f.items? = some (_ :: .list (.var rowVariable :: t :: Option.toList none) :: _) at hf
      exact .query hf hop hplain hgiven hgiven hknown hnone hnamed (fun k e hk => by cases hk)
        (resolves_form test htest) (length_of_ofForms hes) (resolves_forms actions hes)
    · cases heq
  | .list [v, t, k] :: test :: actions, scope, e, h, name, f, hop, hf => by
    obtain ⟨_, _, rowVariable, target, key, testExpr, action, heq, hbinding, _, hbody, rfl⟩ :=
      ofQuery_eq_ok h
    cases heq
    obtain ⟨_, _, hv, ht, hgiven, ⟨heq, _⟩ | ⟨_, e, heq, hk, rfl⟩⟩ := ofBinding_eq_ok hbinding
    · cases heq
    · cases heq
      obtain ⟨rfl, hplain⟩ := variable_of_rowVariableOf hv
      obtain ⟨htest, es, hes, rfl⟩ := actionOf_of_ofBody hbody
      obtain ⟨hknown, hnone, hnamed⟩ := resolves_target (fun e he => resolves_form t he) ht
      change f.items? =
        some (_ :: .list (.var rowVariable :: t :: Option.toList (some k)) :: _) at hf
      refine .query hf hop hplain hgiven hgiven hknown hnone hnamed (fun k' e' hk' he' => ?_)
        (resolves_form test htest) (length_of_ofForms hes) (resolves_forms actions hes)
      cases hk'
      cases he'
      exact resolves_form k hk
  | [], scope, e, h, _, _, _, _ | .atom _ :: _, scope, e, h, _, _, _, _
  | .var _ :: _, scope, e, h, _, _, _, _ | .globalVar _ :: _, scope, e, h, _, _, _, _
  | .immediate _ :: _, scope, e, h, _, _, _, _ | [.list _], scope, e, h, _, _, _, _
  | .list [] :: _ :: _, scope, e, h, _, _, _, _ | .list [_] :: _ :: _, scope, e, h, _, _, _, _
  | .list (_ :: _ :: _ :: _ :: _) :: _ :: _, scope, e, h, _, _, _, _ => by
    obtain ⟨_, _, _, _, _, _, _, heq, hbinding, hcheck, _, _⟩ := ofQuery_eq_ok h
    obtain ⟨_, _, _, _, _, ⟨rfl, _⟩ | ⟨_, _, rfl, _⟩⟩ := ofBinding_eq_ok hbinding
    all_goals
      cases heq
    all_goals exact absurd rfl (ne_nil_of_checkBody hcheck)

end

end Resolution

end KeyedTables
