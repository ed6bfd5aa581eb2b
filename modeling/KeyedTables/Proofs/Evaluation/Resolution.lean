import KeyedTables.Proofs.Evaluation.Naming
import KeyedTables.Proofs.Expr.Resolution
import KeyedTables.Session

/-!
# Resolved forms

The evaluation of an expression agrees with the evaluation by name of the form it was resolved from.
The proof follows resolution, form by form: table and key of a query are resolved in the scope
outside, test and action in the scope with its binder.
-/
namespace KeyedTables

abbrev Agreeing (scope : Scope) (tables : List Installed) (α : Type) (m m' : Action α) : Prop :=
  ∀ env, scope.Live tables env → Agree scope tables α m m' env

namespace Resolution

variable {scope : Scope} {tables : List Installed}

lemma congruence (scope : Scope) (tables : List Installed) :
    Congruence (Promise.framesFound.Allows (scope.Live tables)) (Agreeing scope tables) :=
  (Agree.simulation scope tables).congruence

lemma shape_ofCall {c : Catalog} {items : List Form} {e : Expr}
    (h : Expr.ofCall c scope items = .ok e) : e.shape = .other := by
  cases items with
  | nil =>
    rw [Expr.ofCall] at h
    cases h
  | cons head args =>
    obtain ⟨_, _, ⟨_, _, hq⟩ | ⟨_, _, _, _, ⟨_, _, _, _, rfl⟩ | ⟨_, hb⟩⟩⟩ := ofCall_eq_ok h
    · obtain ⟨_, _, _, _, _, _, _, _, _, _, _, rfl⟩ := ofQuery_eq_ok hq
      rfl
    · rfl
    · cases args with
      | nil =>
        rw [Expr.ofBind] at hb
        cases hb
      | cons target values =>
        obtain ⟨_, _, _, _, rfl⟩ := ofBind_eq_ok hb
        rfl

lemma shape_resolveVar {name : String} {e : Expr} (h : scope.resolveVar name = .ok e) :
    e.shape ≠ .elseMark := by
  unfold Scope.resolveVar at h
  repeat' split at h
  all_goals
    cases h
    try exact fun heq => by cases heq

/-- A form that is resolved is taken for the marker between the branches of `if` exactly when its
expression is. -/
theorem elseMark_iff {c : Catalog} {f : Form} {e : Expr} (h : Expr.ofForm c scope f = .ok e) :
    e.shape = .elseMark ↔ f.shape = .elseMark := by
  cases f with
  | atom a =>
    rw [Expr.ofForm] at h
    cases h
    cases a <;> rfl
  | globalVar g =>
    rw [Expr.ofForm] at h
    cases h
    exact Iff.rfl
  | var v =>
    rw [Expr.ofForm] at h
    exact ⟨fun he => absurd he (shape_resolveVar h), fun hf => by cases hf⟩
  | list items =>
    rw [Expr.ofForm] at h
    rw [shape_ofCall h]
    exact Iff.rfl
  | immediate items =>
    rw [Expr.ofForm] at h
    rw [shape_ofCall h]
    exact Iff.rfl

/-- What `bind` binds looks the same. -/
theorem shape_bindTargetOf {f : Form} {e : Expr} (h : bindTargetOf scope f = .ok e) :
    e.shape = f.shape := by
  unfold bindTargetOf at h
  split at h
  · split at h
    · cases h
    · cases h
      rfl
  · cases h
    rfl
  · cases h

lemma agree_findNamed {m m' : Action Value} (h : Agreeing scope tables Value m m')
    (op : Operator) :
    Agreeing scope tables Installed (m >>= Query.findNamed op) (m' >>= Query.findNamed op) :=
  (congruence scope tables).bind h fun v _ => (congruence scope tables).findNamed op v

/-- A table given by a symbol. -/
theorem agree_target_atom {c : Catalog} {op : Operator} {a : Atom} {t : Target}
    (h : Expr.ofTarget c scope op (.atom a) = .ok t) (tables : List Installed) :
    Agreeing scope tables Installed (Expr.evalTarget op t) (Named.target c op (.atom a)) := by
  cases a with
  | symbol name =>
    rw [Expr.ofTarget, Target.ofSymbol] at h
    rw [Named.target]
    cases hf : c.find name with
    | error e =>
      rw [hf] at h
      cases e <;> cases h
    | ok t₀ =>
      rw [hf] at h
      cases h
      rw [Expr.evalTarget]
      exact (congruence scope tables).findKnown t₀
  | string s => cases h
  | integer i => cases h
  | float x => cases h

/-- The action of a query. -/
theorem agree_action {c : Catalog} {fs : List Form} {es : List Expr} {action : Option Expr}
    (h : List.Forall₂ (Operand.Related (Agreeing scope tables)) (Expr.operands es)
      (Named.operands c fs))
    (haction : (fs = [] ∧ action = none) ∨ (∃ e, es = [e] ∧ action = some e) ∨
      (2 ≤ fs.length ∧ action = some (.call .progn es))) :
    Agreeing scope tables Value ((Expr.evalOption action).getD (pure .false))
      (Named.action (Named.operands c fs)) := by
  obtain ⟨rfl, rfl⟩ | ⟨e, rfl, rfl⟩ | ⟨hlen, rfl⟩ := haction
  · rw [Named.operands, Expr.evalOption]
    exact (congruence scope tables).done _
  · rw [Expr.operands, Expr.operands] at h
    obtain ⟨o, os, ho, hos, heq⟩ := List.forall₂_cons_left_iff.1 h
    cases hos
    rw [heq, Expr.evalOption]
    exact ho.run
  · obtain ⟨f, f', fs, rfl⟩ : ∃ f f' fs', fs = f :: f' :: fs' := by
      match fs, hlen with
      | f :: f' :: fs', _ => exact ⟨f, f', fs', rfl⟩
    have hseq := (congruence scope tables).sequence h .false
    rw [Named.operands, Named.operands] at hseq ⊢
    rw [Expr.evalOption, Option.getD_some, Expr.eval]
    exact hseq

mutual

theorem agree_form (c : Catalog) : ∀ (f : Form) {scope : Scope} {e : Expr},
    Expr.ofForm c scope f = .ok e → ∀ tables, Agreeing scope tables Value e.eval (Named.eval c f)
  | .atom a, scope, e, h, tables => by
    rw [Expr.ofForm] at h
    cases h
    rw [Expr.eval, Named.eval]
    exact (congruence scope tables).done _
  | .var v, scope, e, h, tables => by
    rw [Expr.ofForm] at h
    rw [Named.eval]
    exact fun env hlive => .resolveVar hlive h
  | .globalVar g, scope, e, h, tables => by
    rw [Expr.ofForm] at h
    cases h
    rw [Expr.eval, Named.eval]
    exact (congruence scope tables).readGlobal g
  | .list items, scope, e, h, tables => by
    rw [Expr.ofForm] at h
    rw [Named.eval]
    exact agree_call c items h tables
  | .immediate items, scope, e, h, tables => by
    rw [Expr.ofForm] at h
    rw [Named.eval]
    exact agree_call c items h tables

theorem agree_call (c : Catalog) : ∀ (items : List Form) {scope : Scope} {e : Expr},
    Expr.ofCall c scope items = .ok e →
      ∀ tables, Agreeing scope tables Value e.eval (Named.call c items)
  | [], scope, e, h, tables => by
    rw [Expr.ofCall] at h
    cases h
  | head :: args, scope, e, h, tables => by
    obtain ⟨name, hname, ⟨op, hop, h⟩ | ⟨hop, function, hfunction, _, h⟩⟩ := ofCall_eq_ok h
    · rw [Named.call, hname]
      dsimp only
      rw [hop]
      exact agree_query c op args h tables
    · rw [Named.call, hname]
      dsimp only
      rw [hop]
      dsimp only
      rw [hfunction]
      obtain ⟨hbind, _, es, hes, rfl⟩ | ⟨rfl, h⟩ := h
      · rw [Expr.eval]
        exact (congruence scope tables).call (agree_forms c args hes tables) hbind
          (Agree.permitted scope tables function _) fun _ => (congruence scope tables).removeTable
      · exact agree_bind c args h tables

/-- The first argument of `bind` is not evaluated, the others are. -/
theorem agree_bind (c : Catalog) : ∀ (args : List Form) {scope : Scope} {e : Expr},
    Expr.ofBind c scope args = .ok e → ∀ tables,
      Agreeing scope tables Value e.eval (Call.bind (Named.operands c args))
  | [], scope, e, h, tables => by
    rw [Expr.ofBind] at h
    cases h
  | target :: values, scope, e, h, tables => by
    obtain ⟨t, es, ht, hes, rfl⟩ := ofBind_eq_ok h
    rw [Expr.eval, Expr.operands, Named.operands]
    exact (congruence scope tables).bindCall (shape_bindTargetOf ht)
      (Or.inr (Agree.lenient scope tables)) (agree_forms c values hes tables)

theorem agree_forms (c : Catalog) : ∀ (fs : List Form) {scope : Scope} {es : List Expr},
    Expr.ofForms c scope fs = .ok es → ∀ tables,
      List.Forall₂ (Operand.Related (Agreeing scope tables)) (Expr.operands es)
        (Named.operands c fs)
  | [], scope, es, h, tables => by
    rw [Expr.ofForms] at h
    cases h
    rw [Expr.operands, Named.operands]
    exact .nil
  | f :: fs, scope, es, h, tables => by
    rw [Expr.ofForms] at h
    obtain ⟨e, he, h⟩ := bind_eq_ok h
    obtain ⟨es', hes, h⟩ := bind_eq_ok h
    cases h
    rw [Expr.operands, Named.operands]
    exact .cons ⟨elseMark_iff he, agree_form c f he tables⟩ (agree_forms c fs hes tables)

theorem agree_query (c : Catalog) (op : Operator) : ∀ (args : List Form) {scope : Scope} {e : Expr},
    Expr.ofQuery c scope op args = .ok e → ∀ tables,
      Agreeing scope tables Value e.eval (Named.query c op args)
  | .list [v, t] :: f :: fs, scope, e, h, tables => by
    obtain ⟨_, _, rowVariable, target, key, test, action, heq, hbinding, _, hbody, rfl⟩ :=
      ofQuery_eq_ok h
    cases heq
    obtain ⟨_, _, hv, ht, _, hkey⟩ := ofBinding_eq_ok hbinding
    obtain ⟨heq, rfl⟩ | ⟨_, _, heq, _⟩ := hkey
    · cases heq
      cases (variable_of_rowVariableOf hv).1
      obtain ⟨htest, es, hes, haction⟩ := ofBody_eq_ok hbody
      rw [Expr.eval, Expr.evalOption, Named.query]
      exact Scope.Live.query Promise.lax_framesFound (b := ⟨rowVariable, target.table?, op⟩)
        (agree_target c op t ht tables) (fun hr _ hb => Query.table_of_evalTarget hr hb) .none
        (Or.inr (Agree.lenient scope tables)) (fun t₀ => agree_form c f htest (t₀ :: tables))
        fun t₀ => agree_action (agree_forms c fs hes (t₀ :: tables)) haction
    · cases heq
  | .list [v, t, k] :: f :: fs, scope, e, h, tables => by
    obtain ⟨_, _, rowVariable, target, key, test, action, heq, hbinding, _, hbody, rfl⟩ :=
      ofQuery_eq_ok h
    cases heq
    obtain ⟨_, _, hv, ht, _, hkey⟩ := ofBinding_eq_ok hbinding
    obtain ⟨heq, _⟩ | ⟨_, ek, heq, hk, rfl⟩ := hkey
    · cases heq
    · cases heq
      cases (variable_of_rowVariableOf hv).1
      obtain ⟨htest, es, hes, haction⟩ := ofBody_eq_ok hbody
      rw [Expr.eval, Expr.evalOption, Named.query]
      exact Scope.Live.query Promise.lax_framesFound (b := ⟨rowVariable, target.table?, op⟩)
        (agree_target c op t ht tables) (fun hr _ hb => Query.table_of_evalTarget hr hb)
        (.some (agree_form c k hk tables)) (Or.inr (Agree.lenient scope tables))
        (fun t₀ => agree_form c f htest (t₀ :: tables))
        fun t₀ => agree_action (agree_forms c fs hes (t₀ :: tables)) haction
  | [], scope, e, h, tables | .atom _ :: _, scope, e, h, tables | .var _ :: _, scope, e, h, tables
  | .globalVar _ :: _, scope, e, h, tables | .immediate _ :: _, scope, e, h, tables
  | [.list _], scope, e, h, tables | .list [] :: _ :: _, scope, e, h, tables
  | .list [_] :: _ :: _, scope, e, h, tables
  | .list (_ :: _ :: _ :: _ :: _) :: _ :: _, scope, e, h, tables => by
    obtain ⟨_, _, _, _, _, _, _, heq, hbinding, hcheck, _, _⟩ := ofQuery_eq_ok h
    obtain ⟨_, _, _, _, _, ⟨rfl, _⟩ | ⟨_, _, rfl, _⟩⟩ := ofBinding_eq_ok hbinding
    all_goals
      cases heq
    all_goals exact absurd rfl (ne_nil_of_checkBody hcheck)

theorem agree_target (c : Catalog) (op : Operator) : ∀ (f : Form) {scope : Scope} {t : Target},
    Expr.ofTarget c scope op f = .ok t → ∀ tables,
      Agreeing scope tables Installed (Expr.evalTarget op t) (Named.target c op f)
  | .atom a, scope, t, h, tables => agree_target_atom h tables
  | .var v, scope, t, h, tables => by
    rw [Expr.ofTarget] at h
    obtain ⟨e, he, h⟩ := bind_eq_ok h
    cases h
    rw [Expr.evalTarget, Named.target]
    exact agree_findNamed (fun env hlive => .resolveVar hlive he) op
  | .globalVar g, scope, t, h, tables => by
    rw [Expr.ofTarget] at h
    cases h
    rw [Expr.evalTarget, Named.target, Expr.eval]
    exact agree_findNamed ((congruence scope tables).readGlobal g) op
  | .list items, scope, t, h, tables => by
    rw [Expr.ofTarget] at h
    obtain ⟨e, he, h⟩ := bind_eq_ok h
    cases h
    rw [Expr.evalTarget, Named.target]
    exact agree_findNamed (agree_call c items he tables) op
  | .immediate items, scope, t, h, tables => by
    rw [Expr.ofTarget] at h
    obtain ⟨e, he, h⟩ := bind_eq_ok h
    cases h
    rw [Expr.evalTarget, Named.target]
    exact agree_findNamed (agree_call c items he tables) op

end

end Resolution

/-- What a form was resolved into is evaluated, outside queries, with the outcome and the effect of
the form evaluated by name; in particular every reference finds its frame. -/
theorem eval_eq_eval_by_name {env : Environment} (hframes : env.frames = []) {f : Form} {e : Expr}
    (h : Expr.ofForm env.catalog [] f = .ok e) :
    e.eval.run env = (Named.eval env.catalog f).run env ∧
      ∀ depth active env', e.eval.run env ≠ .error (.frameUnderflow depth active) env' := by
  have hlive : Scope.Live [] [] env := .of_no_frames hframes
  have hagree := Resolution.agree_form env.catalog f h [] env hlive
  refine ⟨hagree.run_eq, fun depth active env' herror => ?_⟩
  cases hagree.found herror

/-- Queries over two tables within each other, one of which hides the row variable of another, and
whose row variables occur in the key of a query and in an action. -/
theorem eval_eq_eval_by_name_of_nested_queries :
    let env := (Session.run .default
      [.build "(deftable accounts (id balance) (1 10) (2 20) (3 30))",
        .build "(deftable owners (account) (1) (3))"]).env
    let f := Form.readOne "(find-row (?o owners) (and (row-exists? (?o accounts) (= ?o:id 2))
      (do-for-this-row (?a accounts ?o:account) (> ?a:balance 20) (= ?o ?a))))"
    ∃ f' e env', f = .ok f' ∧ env.frames = [] ∧ Expr.ofForm env.catalog [] f' = .ok e ∧
      e.eval.run env = (Named.eval env.catalog f').run env ∧
        e.eval.run env = .ok (.integer 3) env' := by
  intro env f
  obtain ⟨f', e, hf, he, hp⟩ := @Resolution.exists_of_resolvesTo env.catalog
    "(find-row (?o owners) (and (row-exists? (?o accounts) (= ?o:id 2))
      (do-for-this-row (?a accounts ?o:account) (> ?a:balance 20) (= ?o ?a))))"
    (fun e => decide (env.frames = [] ∧ e.eval.value? env = some (.integer 3))) (by decide +kernel)
  obtain ⟨hframes, hvalue⟩ := of_decide_eq_true hp
  obtain ⟨env', hrun⟩ := Action.run_of_value? hvalue
  exact ⟨f', e, env', hf, hframes, he, (eval_eq_eval_by_name hframes he).1, hrun⟩

end KeyedTables
