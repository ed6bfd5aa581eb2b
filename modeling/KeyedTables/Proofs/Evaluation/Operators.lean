import KeyedTables.Proofs.Evaluation.Discipline
import KeyedTables.Proofs.Evaluation.Finding

/-!
# The operators of queries in progress

A frame knows the operator of its query for one purpose only: it is named when a column is missing.
So in two environments that differ at most in the operators of their frames, evaluation goes the
same way, and comes to results that differ at most in an operator so named.
-/
namespace KeyedTables

def Frame.anonymous (f : Frame) : Frame := { f with op := .rowExists }

@[simp] theorem Frame.table_anonymous (f : Frame) : f.anonymous.table = f.table := rfl

@[simp] theorem Frame.row_anonymous (f : Frame) : f.anonymous.row = f.row := rfl

@[simp] theorem Frame.rowVariable_anonymous (f : Frame) :
    f.anonymous.rowVariable = f.rowVariable := rfl

namespace Environment

def anonymous (env : Environment) : Environment :=
  { env with frames := env.frames.map Frame.anonymous }

@[simp] theorem config_anonymous (env : Environment) : env.anonymous.config = env.config := rfl

@[simp] theorem length_frames_anonymous (env : Environment) :
    env.anonymous.frames.length = env.frames.length := List.length_map _

@[simp] theorem interrupted_anonymous (env : Environment) :
    env.anonymous.interrupted = env.interrupted := by
  cases h : env.frames <;> simp [interrupted, anonymous, h, Frame.anonymous]

@[simp] theorem view_anonymous (env : Environment) : env.anonymous.view = env.view := by
  rw [view, interrupted_anonymous]
  rfl

@[simp] theorem anonymous_pushFrame (env : Environment) (f : Frame) :
    (env.pushFrame f).anonymous = env.anonymous.pushFrame f.anonymous := rfl

@[simp] theorem anonymous_popFrame (env : Environment) :
    env.popFrame.anonymous = env.anonymous.popFrame := by
  cases h : env.frames <;> simp [popFrame, anonymous, h, Frame.anonymous]

@[simp] theorem anonymous_visit (env : Environment) (row : Nat) :
    (env.visit row).anonymous = env.anonymous.visit row := by
  cases h : env.frames <;> simp [visit, anonymous, h, Frame.anonymous]

@[simp] theorem anonymous_abortInnermost (env : Environment) :
    env.abortInnermost.anonymous = env.anonymous.abortInnermost := by
  cases h : env.frames <;> simp [abortInnermost, anonymous, h, Frame.anonymous]

abbrev EqUpToOperators (env env' : Environment) : Prop := env.anonymous = env'.anonymous

section
variable {env env' : Environment} (h : env.EqUpToOperators env')
include h

lemma EqUpToOperators.config : env.config = env'.config := by
  rw [← config_anonymous env, h, config_anonymous]

lemma EqUpToOperators.view : env.view = env'.view := by
  rw [← view_anonymous env, h, view_anonymous]

lemma EqUpToOperators.length_frames : env.frames.length = env'.frames.length := by
  rw [← length_frames_anonymous env, h, length_frames_anonymous]

lemma EqUpToOperators.catalog : env.catalog = env'.catalog := congrArg View.catalog h.view

lemma EqUpToOperators.globals : env.globals = env'.globals := congrArg View.globals h.view

/-- Environments with the same frames are the same if they are so but for the operators. -/
theorem EqUpToOperators.eq (hf : env.frames = env'.frames) : env = env' := by
  cases env
  cases env'
  simp only [EqUpToOperators, anonymous, mk.injEq] at h hf ⊢
  exact ⟨h.1, h.2.1, h.2.2.1, h.2.2.2.1, hf, h.2.2.2.2.2.1, h.2.2.2.2.2.2.1, h.2.2.2.2.2.2.2⟩

/-- At each depth there are frames that are the same but for the operator, or none. -/
theorem EqUpToOperators.frame_cases (depth : Nat) :
    (env.frames[depth]? = none ∧ env'.frames[depth]? = none) ∨
      ∃ f f', env.frames[depth]? = some f ∧ env'.frames[depth]? = some f' ∧
        f.anonymous = f'.anonymous := by
  have hframes : env.frames[depth]?.map Frame.anonymous =
      env'.frames[depth]?.map Frame.anonymous := by
    rw [← List.getElem?_map, ← List.getElem?_map]
    exact congrArg (fun s : Environment => s.frames[depth]?) h
  cases hf : env.frames[depth]? with
  | none =>
    rw [hf, Option.map_none] at hframes
    exact Or.inl ⟨rfl, Option.map_eq_none_iff.1 hframes.symm⟩
  | some f =>
    rw [hf, Option.map_some] at hframes
    obtain ⟨f', hf', heq⟩ := Option.map_eq_some_iff.1 hframes.symm
    exact Or.inr ⟨f, f', rfl, hf', heq.symm⟩

end

end Environment

/-- Errors that differ at most in the operator whose query misses a column. -/
inductive Error.EqUpToOperator : Error → Error → Prop
  | refl (e : Error) : EqUpToOperator e e
  | unknownColumn (op op' : Operator) (rowVariable column table : String) :
    EqUpToOperator (.unknownColumn op rowVariable column table)
      (.unknownColumn op' rowVariable column table)

/-- Results with the same value, or with errors that are the same up to the operator, and with
environments in a relation. -/
inductive ResultUpToOperator (rel : Environment → Environment → Prop) {α : Type} :
    EStateM.Result Error Environment α → EStateM.Result Error Environment α → Prop
  | ok (a : α) {env env' : Environment} (h : rel env env') :
    ResultUpToOperator rel (.ok a env) (.ok a env')
  | error {e e' : Error} {env env' : Environment} (he : e.EqUpToOperator e') (h : rel env env') :
    ResultUpToOperator rel (.error e env) (.error e' env')

/-- Where the frames are the same in the end, the environments are. -/
theorem ResultUpToOperator.of_frames_eq {α : Type} {m m' : Action α} {env env' : Environment}
    (h : ResultUpToOperator Environment.EqUpToOperators (m.run env) (m'.run env'))
    (hf : (m.final env).frames = (m'.final env').frames) :
    ResultUpToOperator Eq (m.run env) (m'.run env') := by
  unfold Action.final Eval.final at hf
  generalize m.run env = r at h hf
  generalize m'.run env' = r' at h hf
  cases h with
  | ok a hs => exact .ok a (hs.eq hf)
  | error he hs => exact .error he (hs.eq hf)

/-- Two actions that come to the same, up to operators, in environments that are the same up to
operators. -/
def OperatorBlind (α : Type) (m m' : Action α) : Prop :=
  ∀ env env' : Environment, env.EqUpToOperators env' →
    ResultUpToOperator Environment.EqUpToOperators (m.run env) (m'.run env')

namespace OperatorBlind
variable {α β : Type}

theorem done (a : α) : OperatorBlind α (.done a) (.done a) := fun _ _ h => .ok a h

lemma fail (e : Error) : OperatorBlind α (.fail e) (.fail e) := fun _ _ h => .error (.refl e) h

/-- A change that does not depend on the operators. -/
theorem update {g k : Environment → Environment}
    (hg : ∀ env, (g env).anonymous = k env.anonymous) :
    OperatorBlind Unit (.update g) (.update g) := fun env env' h =>
  .ok () (by rw [Environment.EqUpToOperators, hg, hg, h])

lemma bind {m m' : Action α} {f f' : α → Action β} (hm : OperatorBlind α m m')
    (hf : ∀ a, m.Yields a → OperatorBlind β (f a) (f' a)) :
    OperatorBlind β (m >>= f) (m' >>= f') := by
  intro env env' h
  have hresult := hm env env' h
  rw [Action.run_bind, Action.run_bind]
  generalize hrun : m.run env = r at hresult
  generalize m'.run env' = r' at hresult
  cases hresult with
  | ok a hs => exact hf a ⟨env, _, hrun⟩ _ _ hs
  | error he hs => exact .error he hs

/-- What is done may depend on the environment in the same way. -/
theorem look {f f' : Environment → Action α}
    (hf : ∀ env env', env.EqUpToOperators env' →
      ResultUpToOperator Environment.EqUpToOperators ((f env).run env) ((f' env').run env')) :
    OperatorBlind α (.environment >>= f) (.environment >>= f') := hf

lemma ending {m m' : Action α} {g k : Environment → Environment}
    (hg : ∀ env, (g env).anonymous = k env.anonymous)
    (hm : OperatorBlind α m m') : OperatorBlind α (m.ending g) (m'.ending g) := by
  intro env env' h
  have hresult := hm env env' h
  rw [Action.run_ending, Action.run_ending]
  generalize m.run env = r at hresult
  generalize m'.run env' = r' at hresult
  cases hresult with
  | ok a hs => exact .ok a (by rw [Environment.EqUpToOperators, hg, hg, hs])
  | error he hs => exact .error he (by rw [Environment.EqUpToOperators, hg, hg, hs])

lemma base : BaseCongruence (fun _ => True) OperatorBlind where
  ordinary _ := trivial
  done := done
  fail {α e} _ := fail e
  bind := bind
  look {α f g} hf := by
    refine look fun env env' h => ?_
    rw [h.view]
    exact hf _ env env' h
  abort := by
    refine look fun env env' h => ?_
    have hempty : env.frames.isEmpty = env'.frames.isEmpty := by
      rw [Bool.eq_iff_iff, List.isEmpty_iff_length_eq_zero, List.isEmpty_iff_length_eq_zero,
        h.length_frames]
    rw [hempty]
    cases env'.frames.isEmpty with
    | true => exact fail _ env env' h
    | false =>
      exact bind (update Environment.anonymous_abortInnermost) (fun _ _ => done _) env env' h
  emit s := update (k := fun env => { env with output := env.output ++ s }) fun _ => rfl
  halt := bind (update (k := fun env => { env with halted := true }) fun _ => rfl)
    fun _ _ => done _
  assign {target} htarget v := by
    cases target with
    | localVar x =>
      exact bind (update (k := fun env => { env with locals := env.locals.set x v }) fun _ => rfl)
        fun _ _ => done _
    | globalVar x =>
      refine look fun env env' h => ?_
      rw [h.globals]
      cases env'.globals.get? x with
      | none => exact fail _ env env' h
      | some _ =>
        exact bind (update (k := fun env => { env with globals := env.globals.set x v })
          fun _ => rfl) (fun _ _ => done _) env env' h
    | elseMark | other => cases htarget

lemma removeTable : Removing OperatorBlind := by
  intro name
  refine look fun env env' h => ?_
  rw [h.catalog]
  cases env'.catalog.remove name with
  | error e => exact fail _ env env' h
  | ok c =>
    exact bind (update (k := fun env => { env with catalog := c }) fun _ => rfl)
      (fun _ _ => done _) env env' h

/-- Frames that are the same but for the operator have table, row and row variable in common. -/
theorem frame_fields {f f' : Frame} (h : f.anonymous = f'.anonymous) :
    f.table = f'.table ∧ f.row = f'.row ∧ f.rowVariable = f'.rowVariable := by
  refine ⟨?_, ?_, ?_⟩
  · rw [← f.table_anonymous, h, Frame.table_anonymous]
  · rw [← f.row_anonymous, h, Frame.row_anonymous]
  · rw [← f.rowVariable_anonymous, h, Frame.rowVariable_anonymous]

lemma rowKey (depth : Nat) : OperatorBlind Value (Query.rowKey depth) (Query.rowKey depth) := by
  intro env env' h
  unfold Query.rowKey
  obtain ⟨hf, hf'⟩ | ⟨f, f', hf, hf', heq⟩ := h.frame_cases depth
  · rw [Action.run_bind_of_error (Query.run_frame_of_none hf),
      Action.run_bind_of_error (Query.run_frame_of_none hf'), h.length_frames]
    exact .error (.refl _) h
  · obtain ⟨htable, hrow, _⟩ := frame_fields heq
    rw [Action.run_bind_of_ok (Query.run_frame hf), Action.run_bind_of_ok (Query.run_frame hf'),
      htable, hrow]
    cases f'.table.table.rowKey? f'.row with
    | some v => exact .ok v h
    | none =>
      rw [Action.environment_bind, Action.run_read, Action.run_read, h.length_frames]
      exact .error (.refl _) h

/-- Ordinals are the same in frames that are the same, and the operators come up in errors. -/
theorem columnOrdinal_cases {f f' : Frame} (h : f.anonymous = f'.anonymous) (key : Atom)
    (ordinal : Option Nat) :
    Query.columnOrdinal f key ordinal = Query.columnOrdinal f' key ordinal ∨
      ∃ e e', Query.columnOrdinal f key ordinal = .error e ∧
        Query.columnOrdinal f' key ordinal = .error e' ∧ e.EqUpToOperator e' := by
  obtain ⟨htable, _, hvariable⟩ := frame_fields h
  unfold Query.columnOrdinal
  cases ordinal with
  | some i => exact Or.inl rfl
  | none =>
    dsimp only
    rw [htable, hvariable]
    cases f'.table.table.columnOrdinal? (.atom key) with
    | some i => exact Or.inl rfl
    | none => exact Or.inr ⟨_, _, rfl, rfl, .unknownColumn _ _ _ _ _⟩

lemma column (depth : Nat) (key : Atom) (ordinal : Option Nat) :
    OperatorBlind Value (Query.column depth key ordinal) (Query.column depth key ordinal) := by
  intro env env' h
  unfold Query.column
  obtain ⟨hf, hf'⟩ | ⟨f, f', hf, hf', heq⟩ := h.frame_cases depth
  · rw [Action.run_bind_of_error (Query.run_frame_of_none hf),
      Action.run_bind_of_error (Query.run_frame_of_none hf'), h.length_frames]
    exact .error (.refl _) h
  · obtain ⟨htable, hrow, _⟩ := frame_fields heq
    rw [Action.run_bind_of_ok (Query.run_frame hf), Action.run_bind_of_ok (Query.run_frame hf'),
      htable, hrow]
    obtain hcol | ⟨e, e', he, he', hee⟩ := columnOrdinal_cases heq key ordinal
    · rw [hcol]
      refine base.bind (base.ofExcept fun _ => trivial) (fun col _ => ?_) env env' h
      cases f'.table.table.cell? f'.row col with
      | some v => exact base.done v
      | none => exact base.fail trivial
    · rw [he, he']
      exact .error hee h

/-- In frames that are the same but for the operator, actions come to the same. -/
theorem inFrame {f f' : Frame} (hf : f.anonymous = f'.anonymous) {m m' : Action α}
    (hm : OperatorBlind α m m') :
    OperatorBlind α (Query.inFrame f m) (Query.inFrame f' m') := by
  intro env env' h
  refine ending Environment.anonymous_popFrame hm _ _ ?_
  rw [Environment.EqUpToOperators, Environment.anonymous_pushFrame,
    Environment.anonymous_pushFrame, h, hf]

theorem visitRow {body : Query.Body} (htest : OperatorBlind Value body.test body.test)
    (haction : OperatorBlind Value body.action body.action) (row : Nat) :
    OperatorBlind Value (Query.visitRow body row) (Query.visitRow body row) :=
  base.visitRow (update (k := (·.visit row)) fun env => env.anonymous_visit row) htest haction

lemma congruence : EvaluationCongruence OperatorBlind where
  toBaseCongruence := base
  rowKey := rowKey
  column := column
  query op rowVariable target key body htarget hkey htest haction := by
    refine bind htarget fun t _ => look fun env env' h => ?_
    rw [h.config, h.length_frames]
    split
    · exact fail _ env env' h
    · refine bind (base.startRow hkey (Or.inr fun _ _ => trivial) t.table) (fun start _ => ?_) env
        env' h
      exact inFrame rfl (base.visits (rowKey 0) htest haction op fun row _ =>
        update (k := (·.visit row)) fun env => env.anonymous_visit row)

/-- No expression makes a difference between operators. -/
theorem eval (e : Expr) : OperatorBlind Value e.eval e.eval :=
  congruence.eval e fun _ => removeTable

end OperatorBlind

end KeyedTables
