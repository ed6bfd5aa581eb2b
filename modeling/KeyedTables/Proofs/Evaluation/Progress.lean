import KeyedTables.Proofs.Evaluation.Live
import KeyedTables.Proofs.Expr.Parts
import KeyedTables.Proofs.Expr.WellFormed
import KeyedTables.Session

/-!
# What a resolved expression may fail with

A well-formed expression, evaluated with the frames of the binders in scope, never misses an
argument or a frame, and is never refused as ill-formed. Apart from ordinary errors it fails in two
ways: a reference to a query over a table that was not known misses its column, or a look-up by keys
misses a column. Both are traced to the part of the expression and to the moment of evaluation they
come from.
-/
namespace KeyedTables

/-- Whether an error is one that resolution rules out: of forms that are refused, and of expressions
that are not resolved from any. -/
def Error.isRuledOut : Error → Bool
  | .missingArgument _ _ | .frameUnderflow _ _ | .arity _ _ _ | .invalidExpression _
  | .rowVariableRebind _ _ | .unknownFunction _ | .unknownTable _ _ => true
  | _ => false

lemma Error.not_isRuledOut_of_isOrdinary {e : Error} (h : e.isOrdinary = true) :
    e.isRuledOut = false := by
  cases e <;> first | rfl | cases h

inductive Expr.RefersTo : Scope → Expr → Binder → String → Prop
  | column {scope : Scope} {depth : Nat} {b : Binder} {name : String} {ordinal : Option Nat} :
      scope[depth]? = some b → RefersTo scope (.column depth (.symbol name) ordinal) b name
  | call {scope : Scope} {function : Builtin} {args : List Expr} {a : Expr} {b : Binder}
      {name : String} : a ∈ args → RefersTo scope a b name →
        RefersTo scope (.call function args) b name
  | target {scope : Scope} {op : Operator} {rowVariable : String} {e : Expr} {key : Option Expr}
      {test : Expr} {action : Option Expr} {b : Binder} {name : String} :
      RefersTo scope e b name →
        RefersTo scope (.query op rowVariable (.named e) key test action) b name
  | key {scope : Scope} {op : Operator} {rowVariable : String} {target : Target} {k test : Expr}
      {action : Option Expr} {b : Binder} {name : String} : RefersTo scope k b name →
        RefersTo scope (.query op rowVariable target (some k) test action) b name
  | test {scope : Scope} {op : Operator} {rowVariable : String} {target : Target}
      {key : Option Expr} {test : Expr} {action : Option Expr} {b : Binder} {name : String} :
      RefersTo (⟨rowVariable, target.table?, op⟩ :: scope) test b name →
        RefersTo scope (.query op rowVariable target key test action) b name
  | action {scope : Scope} {op : Operator} {rowVariable : String} {target : Target}
      {key : Option Expr} {test a : Expr} {b : Binder} {name : String} :
      RefersTo (⟨rowVariable, target.table?, op⟩ :: scope) a b name →
        RefersTo scope (.query op rowVariable target key test (some a)) b name

/-- The operands of a look-up, evaluated from an environment on, name a table and two keys, and the
look-up of these fails. -/
def Call.FailsToLookUp (os : List Operand) (env : Environment) (e : Error) : Prop :=
  ∃ t env₁ row env₂ col env₃, (tableArgument .lookup os).run env = .ok t env₁ ∧
    (argument .lookup os 1).run env₁ = .ok row env₂ ∧
      (argument .lookup os 2).run env₂ = .ok col env₃ ∧ t.lookup row col = .error e

/-- What an expression in a scope may fail with in an environment, ordinary errors apart. -/
inductive Expr.MayFail (scope : Scope) (e : Expr) (env : Environment) : Error → Prop
  /-- The frame of a query over a table that was not known does not have a column referred to. -/
  | column {b : Binder} {name : String} {f : Frame} : e.RefersTo scope b name → b.table = none →
      f ∈ env.frames → b.Matches f → f.table.table.columnOrdinal? (.symbol name) = none →
        MayFail scope e env (.unknownColumn f.op f.rowVariable name f.table.table.name)
  | lookup {args : List Expr} {failure : Error} : .call .lookup args ∈ e.parts →
      Call.FailsToLookUp (operands args) env failure → MayFail scope e env failure

/-- An error is an ordinary one, or there is a reason for it where it comes up. -/
def Promise.unless (reason : Environment → Error → Prop) : Promise :=
  ⟨fun _ => True, fun env e => e.isOrdinary = true ∨ reason env e⟩

lemma Promise.lax_unless (reason : Environment → Error → Prop) : (Promise.unless reason).Lax :=
  ⟨fun _ => trivial, Or.inl⟩

/-- There may be more reasons for an error. -/
theorem InStep.mono {reason reason' : Environment → Error → Prop} {I : Environment → Prop}
    {α : Type} {m m' : Action α} {env : Environment}
    (h : InStep (.unless reason) I α m m' env)
    (hreason : ∀ {s e}, reason s e → reason' s e) : InStep (.unless reason') I α m m' env where
  run_eq := h.run_eq
  last := h.last
  moments _ _ := trivial
  errors hr := by
    obtain ⟨s, hs, herror⟩ := h.errors hr
    exact ⟨s, hs, herror.imp_right hreason⟩

namespace Expr

/-- A part of an expression fails for no other reasons, whatever the scope it stands in. -/
theorem MayFail.of_part {scope inner : Scope} {a e : Expr} {env : Environment} {failure : Error}
    (hparts : a.parts ⊆ e.parts)
    (hrefers : ∀ {b name}, a.RefersTo inner b name → e.RefersTo scope b name)
    (h : a.MayFail inner env failure) : e.MayFail scope env failure := by
  cases h with
  | column hr hb hf hm hcol => exact .column (hrefers hr) hb hf hm hcol
  | lookup hargs hfails => exact .lookup (hparts hargs) hfails

end Expr

namespace Progress
variable {reason : Environment → Error → Prop} {scope : Scope} {tables : List Installed}

lemma congruence (reason : Environment → Error → Prop) (scope : Scope)
    (tables : List Installed) :
    Congruence ((Promise.unless reason).Allows (scope.Live tables))
      (InStep.Throughout (.unless reason) (scope.Live tables)) :=
  InStep.congruence (Scope.Live.steady (Promise.lax_unless reason) scope tables)

/-- The arguments of a well-formed call fit its function. -/
theorem wellFormed_operands {function : Builtin} {args : List Expr}
    (harity : function.arity.admits args.length = true)
    (hthen : function = .ifThen →
      ∃ condition body, args = condition :: .const (.symbol "then") :: body)
    (htarget : function = .bind → ∀ a, args.head? = some a →
      (∃ x, a = .localVar x) ∨ ∃ x, a = .globalVar x) :
    Call.WellFormed function (Expr.operands args) := by
  rw [Expr.operands_eq_map]
  constructor
  · rw [List.length_map]
    exact harity
  · intro hf
    obtain ⟨condition, body, rfl⟩ := hthen hf
    simp
  · intro hf o ho
    rw [List.head?_map] at ho
    obtain ⟨a, ha, rfl⟩ := Option.map_eq_some_iff.1 ho
    obtain ⟨x, rfl⟩ | ⟨x, rfl⟩ := htarget hf a ha
    · rfl
    · rfl

/-- Whatever the operands fail for, a look-up by keys fails for as well, or because the look-up of
the table and the keys that they yield fails. -/
theorem lookup {os : List Operand} (hfits : Call.WellFormed .lookup os)
    (hos : ∀ o ∈ os,
      InStep.Throughout (.unless reason) (scope.Live tables) Value o.run o.run)
    (hreason : ∀ {s e}, Call.FailsToLookUp os s e → reason s e) :
    InStep.Throughout (.unless reason) (scope.Live tables) Value (Call.run .lookup os)
      (Call.run .lookup os) := by
  intro env h
  -- the look-up is blamed on the environment in which the call begins
  let reason' : Environment → Error → Prop := fun s e => reason s e ∨ Call.FailsToLookUp os env e
  have hR := congruence reason' scope tables
  have hsame : List.Forall₂ (Operand.Related
      (InStep.Throughout (.unless reason') (scope.Live tables))) os os :=
    List.forall₂_same.2 fun o ho => ⟨Iff.rfl, fun s hs => (hos o ho s hs).mono Or.inl⟩
  have hlength : 3 ≤ os.length := (Arity.admits_iff.1 hfits.arity).1
  have hstep : InStep (.unless reason') (scope.Live tables) Value (Call.run .lookup os)
      (Call.run .lookup os) env := by
    refine (hR.tableArgument hsame .lookup (Or.inl (by omega)) env h).bind fun t env₁ ht h₁ => ?_
    refine (hR.argument hsame .lookup (Or.inl (by omega)) env₁ h₁).bind fun row env₂ hrow h₂ => ?_
    refine (hR.argument hsame .lookup (Or.inl (by omega)) env₂ h₂).bind fun col env₃ hcol h₃ => ?_
    refine hR.ofExcept (fun {e} he s _ => ?_) env₃ h₃
    exact Or.inr (Or.inr ⟨t, env₁, row, env₂, col, env₃, ht, hrow, hcol, he⟩)
  refine ⟨rfl, hstep.last, fun _ _ => trivial, fun {e env'} hr => ?_⟩
  obtain ⟨s, hs, he | he | he⟩ := hstep.errors hr
  · exact ⟨s, hs, Or.inl he⟩
  · exact ⟨s, hs, Or.inr he⟩
  · exact ⟨env, Action.self_mem_trace _ env, Or.inr (hreason he)⟩

/-- A call whose arguments fit its function fails for what its operands fail for, unless it is a
look-up. -/
theorem call {function : Builtin} {os : List Operand} (hfits : Call.WellFormed function os)
    (hos : ∀ o ∈ os,
      InStep.Throughout (.unless reason) (scope.Live tables) Value o.run o.run)
    (hreason : function = .lookup → ∀ {s e}, Call.FailsToLookUp os s e → reason s e) :
    InStep.Throughout (.unless reason) (scope.Live tables) Value (Call.run function os)
      (Call.run function os) := by
  by_cases hf : function = .lookup
  · subst hf
    exact lookup hfits hos (hreason rfl)
  · have hR := congruence reason scope tables
    exact hR.call_self hos ⟨Or.inl hfits, fun heq => absurd heq hf⟩ fun _ => hR.removeTable

lemma target {op : Operator} {t : Target}
    (h : ∀ e, t = .named e →
      InStep.Throughout (.unless reason) (scope.Live tables) Value e.eval e.eval) :
    InStep.Throughout (.unless reason) (scope.Live tables) Installed (Expr.evalTarget op t)
      (Expr.evalTarget op t) := by
  have hR := congruence reason scope tables
  cases t with
  | known t =>
    rw [Expr.evalTarget]
    exact hR.findKnown t
  | named e =>
    rw [Expr.evalTarget]
    exact hR.bind (h e rfl) fun v _ => hR.findNamed op v

/-- The column of a query over a table that was not known may be missing. -/
theorem column {b : Binder} {depth : Nat} {name : String} {ordinal : Option Nat}
    (hb : scope[depth]? = some b)
    (hordinal : ∀ i, ordinal = some i →
      ∃ t, b.table = some t ∧ t.columnOrdinal? (.symbol name) = some i)
    (hreason : ordinal = none → ∀ {s : Environment} {f : Frame}, f ∈ s.frames → b.Matches f →
      f.table.table.columnOrdinal? (.symbol name) = none →
        reason s (.unknownColumn f.op f.rowVariable name f.table.table.name)) :
    InStep.Throughout (.unless reason) (scope.Live tables) Value
      (Query.column depth (.symbol name) ordinal) (Query.column depth (.symbol name) ordinal) := by
  intro env h
  obtain ⟨f, hf, hm⟩ := Scope.exists_matches h.matches_frames hb
  obtain ⟨_, _, _, _, hrun⟩ | ⟨hnone, hcol, hrun⟩ := run_column_cases hf hm hordinal
  · exact .of_run_eq_ok (Promise.lax_unless reason) h hrun hrun
  · exact .of_run_eq_error (Promise.lax_unless reason) h hrun hrun
      (Or.inr (hreason hnone (List.mem_of_getElem? hf) hm hcol))

/-- A well-formed expression, evaluated in its scope, only fails with ordinary errors and for the
reasons that can be read off it. -/
theorem eval {c : Catalog} {e : Expr} (h : e.WellFormed c scope) (tables : List Installed) :
    InStep.Throughout (.unless (e.MayFail scope)) (scope.Live tables) Value e.eval e.eval := by
  induction h generalizing tables with
  | const =>
    rw [Expr.eval]
    exact (congruence _ _ tables).done _
  | localVar =>
    rw [Expr.eval]
    exact (congruence _ _ tables).readLocal _
  | globalVar =>
    rw [Expr.eval]
    exact (congruence _ _ tables).readGlobal _
  | @call scope function args harity hthen htarget _ ih =>
    rw [Expr.eval]
    refine call (wellFormed_operands harity hthen htarget) (fun o ho => ?_) ?_
    · rw [Expr.operands_eq_map] at ho
      obtain ⟨a, ha, rfl⟩ := List.mem_map.1 ho
      exact fun env hlive => (ih a ha tables env hlive).mono
        (.of_part (Expr.parts_subset_call ha) (.call ha))
    · rintro rfl s failure hfails
      exact .lookup (Expr.self_mem_parts _) hfails
  | @rowKey scope depth b hb =>
    rw [Expr.eval]
    intro env hlive
    obtain ⟨v, hrun⟩ := hlive.run_rowKey hb
    exact .of_run_eq_ok (Promise.lax_unless _) hlive hrun hrun
  | columnByKey hb htable =>
    rw [Expr.eval]
    exact column hb (fun i hi => by cases hi) fun _ {_ _} hf hm hcol =>
      .column (.column hb) htable hf hm hcol
  | columnByOrdinal hb htable hcol =>
    rw [Expr.eval]
    refine column hb (fun j hj => ?_) fun hnone => by cases hnone
    cases hj
    exact ⟨_, htable, hcol⟩
  | @query scope op rowVariable t key test action hgiven _ _ _ _ _ ihnamed ihkey ihtest ihaction =>
    rw [Expr.eval]
    refine Scope.Live.query (Promise.lax_unless _) (b := ⟨rowVariable, t.table?, op⟩)
      (target fun e he env hlive => ?_) (fun hr _ hb => Query.table_of_evalTarget hr hb) ?_
      (Or.inl fun hop => ?_) (fun u env hlive => ?_) fun u => ?_
    · subst he
      exact (ihnamed e rfl tables env hlive).mono
        (.of_part Expr.parts_target_subset .target)
    · cases key with
      | none =>
        rw [Expr.evalOption]
        exact .none
      | some k =>
        rw [Expr.evalOption]
        exact .some fun env hlive => (ihkey k rfl tables env hlive).mono
          (.of_part Expr.parts_key_subset .key)
    · rw [Expr.evalOption_eq_map, Option.isSome_map, hgiven]
      exact decide_eq_true hop
    · exact (ihtest (u :: tables) env hlive).mono (.of_part Expr.parts_test_subset .test)
    · cases action with
      | none =>
        rw [Expr.evalOption]
        exact (congruence _ _ _).done _
      | some a =>
        rw [Expr.evalOption]
        exact fun env hlive => (ihaction a rfl (u :: tables) env hlive).mono
          (.of_part Expr.parts_action_subset .action)

end Progress

/-- What was resolved from a form, evaluated outside of queries, misses no argument, no frame, and
is not refused. It misses a column of a query only by reference to a query over a table that was not
known, and a column for a key only in a look-up by keys. -/
theorem eval_ofForm_progress {c : Catalog} {env : Environment} (hframes : env.frames = [])
    {f : Form} {e : Expr} (h : Expr.ofForm c [] f = .ok e) {failure : Error} {env' : Environment}
    (hrun : e.eval.run env = .error failure env') :
    failure.isRuledOut = false ∧
      (∀ op rowVariable column t, failure = .unknownColumn op rowVariable column t →
        ∃ b, e.RefersTo [] b column ∧ b.table = none ∧ b.op = op ∧ b.rowVariable = rowVariable ∧
          ∃ s ∈ e.eval.trace env, ∃ f ∈ s.frames, b.Matches f ∧ f.table.table.name = t ∧
            f.table.table.columnOrdinal? (.symbol column) = none) ∧
      (∀ t key, failure = .noColumnForKey t key →
        ∃ args, .call .lookup args ∈ e.parts ∧
          ∃ s ∈ e.eval.trace env, Call.FailsToLookUp (Expr.operands args) s failure) := by
  have hstep := Progress.eval (Resolution.wellFormed_form f h) [] env (.of_no_frames hframes)
  obtain ⟨s, hs, hordinary | hfail⟩ := hstep.errors hrun
  · refine ⟨Error.not_isRuledOut_of_isOrdinary hordinary, ?_, ?_⟩
    · rintro op rowVariable column t rfl
      cases hordinary
    · rintro t key rfl
      cases hordinary
  · cases hfail with
    | @column b name f hrefers htable hf hm hcol =>
      refine ⟨rfl, fun op rowVariable column t heq => ?_, fun t key heq => by cases heq⟩
      cases heq
      exact ⟨b, hrefers, htable, hm.op.symm, hm.rowVariable.symm, s, hs, f, hf, hm, rfl, hcol⟩
    | @lookup args _ hargs hfails =>
      obtain ⟨t, _, _, _, col, _, _, _, _, hlookup⟩ := id hfails
      refine ⟨?_, fun op rowVariable column t heq => ?_, fun _ _ _ =>
        ⟨args, hargs, s, hs, hfails⟩⟩
      · obtain hordinary | rfl := Table.kind_of_lookup hlookup
        · exact Error.not_isRuledOut_of_isOrdinary hordinary
        · rfl
      · subst heq
        obtain hordinary | heq := Table.kind_of_lookup hlookup
        · cases hordinary
        · cases heq

def Error.unknownColumn? : Error → Option (Operator × String × String × String)
  | unknownColumn op rowVariable column table => some (op, rowVariable, column, table)
  | _ => none

lemma Error.unknownColumn?_eq_some_iff {e : Error} {op : Operator}
    {rowVariable column table : String} :
    e.unknownColumn? = some (op, rowVariable, column, table) ↔
      e = .unknownColumn op rowVariable column table := by
  constructor
  · intro h
    cases e <;> cases h
    rfl
  · rintro rfl
    rfl

/-- A query over a table that is named by a call, and whose action refers to a column that the table
does not have. -/
theorem eval_ofForm_progress_of_missing_column :
    let env := (Session.run .default [.build "(deftable accounts (id balance) (1 10))"]).env
    let source := "(do-for-row (?a (sym-cat acc ounts)) TRUE ?a:owner)"
    ∃ f e env', Form.readOne source = .ok f ∧ env.frames = [] ∧
      Expr.ofForm env.catalog [] f = .ok e ∧
        e.eval.run env = .error (.unknownColumn .doForRow "a" "owner" "accounts") env' ∧
          ∃ b, e.RefersTo [] b "owner" ∧ b.table = none := by
  intro env source
  obtain ⟨f, e, hf, he, hp⟩ := @Resolution.exists_of_resolvesTo env.catalog source
    (fun e => decide (env.frames = [] ∧ (e.eval.error? env).bind Error.unknownColumn? =
      some (.doForRow, "a", "owner", "accounts"))) (by decide +kernel)
  obtain ⟨hframes, herror⟩ := of_decide_eq_true hp
  obtain ⟨error, hsome, hcolumn⟩ := Option.bind_eq_some_iff.1 herror
  obtain rfl := Error.unknownColumn?_eq_some_iff.1 hcolumn
  obtain ⟨env', hrun⟩ := Action.run_of_error? hsome
  obtain ⟨b, hrefers, htable, _⟩ := (eval_ofForm_progress hframes he hrun).2.1 _ _ _ _ rfl
  exact ⟨f, e, env', hf, hframes, he, hrun, b, hrefers, htable⟩

end KeyedTables
