import KeyedTables.Evaluation.Named
import KeyedTables.Proofs.Evaluation.Live

/-!
# References by depth and by name

An expression refers to the frames of queries by their depth, and to columns by their ordinal if the
table is known; the form it was resolved from has names instead. While the frames in progress are
those of the binders in scope, in the same order, both mean the same: depth and name lead to the
same frame, ordinal and name to the same cell. Queries add a binder and a frame at the same time, so
the evaluation of an expression agrees with the evaluation of its form by name, and never misses a
frame.
-/
namespace KeyedTables

/-- No missing frame is reported. -/
def Promise.framesFound : Promise := ⟨fun _ => True, fun _ e => e.isUnderflow = false⟩

theorem Promise.lax_framesFound : Promise.framesFound.Lax :=
  ⟨fun _ => trivial, Error.isUnderflow_of_isOrdinary⟩

/-- Two actions with the same effect in an environment, which leaves the frames of a scope in
progress and misses none. -/
abbrev Agree (scope : Scope) (tables : List Installed) (α : Type) (m m' : Action α)
    (env : Environment) : Prop :=
  InStep .framesFound (scope.Live tables) α m m' env

namespace Agree
variable {scope : Scope} {tables : List Installed} {α : Type} {env : Environment}

theorem found {m m' : Action α} (h : Agree scope tables α m m' env) {e : Error}
    {env' : Environment} (hr : m.run env = .error e env') : e.isUnderflow = false := by
  obtain ⟨_, _, herror⟩ := h.errors hr
  exact herror

/-- What does not refer to frames agrees with itself. -/
theorem simulation (scope : Scope) (tables : List Installed) :
    Simulation (Promise.framesFound.Allows (scope.Live tables)) (scope.Live tables)
      (Agree scope tables) :=
  InStep.simulation (Scope.Live.steady Promise.lax_framesFound scope tables)

/-- Ill-formed calls are reported alike. -/
theorem lenient (scope : Scope) (tables : List Installed) :
    Lenient (Promise.framesFound.Allows (scope.Live tables)) :=
  fun _ he _ _ => Error.isUnderflow_of_isMalformed he

theorem permitted (scope : Scope) (tables : List Installed) (function : Builtin)
    (os : List Operand) :
    Call.Permitted (Promise.framesFound.Allows (scope.Live tables)) function os :=
  ⟨Or.inr (lenient scope tables), fun _ _ _ _ _ => rfl⟩

end Agree

section References
variable {scope : Scope} {tables : List Installed} {env : Environment} {f : Frame} {depth : Nat}

/-- What a name reads that is the row variable of a query. -/
theorem run_readVar_row {name : String} (h : env.frames.find? (·.rowVariable = name) = some f) :
    (Named.readVar name).run env = (Named.rowKey f).run env := by
  unfold Named.readVar Named.frameOf?
  rw [Action.environment_bind, Action.run_read, h]

/-- What a name reads that is a column of a row variable. -/
theorem run_readVar_column {name rowVariable columnName : String}
    (hname : env.frames.find? (·.rowVariable = name) = none)
    (hsplit : Text.splitMember? name = some (rowVariable, columnName))
    (h : env.frames.find? (·.rowVariable = rowVariable) = some f) :
    (Named.readVar name).run env = (Named.column f columnName).run env := by
  unfold Named.readVar Named.frameOf?
  rw [Action.environment_bind, Action.run_read, hname]
  dsimp only
  rw [hsplit]
  dsimp only
  rw [h]

/-- What a name reads that is neither. -/
theorem run_readVar_local {name : String}
    (hname : env.frames.find? (·.rowVariable = name) = none)
    (h : ∀ rowVariable columnName, Text.splitMember? name = some (rowVariable, columnName) →
      env.frames.find? (·.rowVariable = rowVariable) = none) :
    (Named.readVar name).run env = (readLocal name).run env := by
  unfold Named.readVar Named.frameOf?
  rw [Action.environment_bind, Action.run_read, hname]
  dsimp only
  cases hsplit : Text.splitMember? name with
  | none => rfl
  | some r =>
    dsimp only
    rw [h r.1 r.2 hsplit]

lemma Agree.rowKey (h : scope.Live tables env) {name : String} {b : Binder}
    (hb : scope.find? name = some (depth, b)) :
    Agree scope tables Value (Query.rowKey depth) (Named.readVar name) env := by
  obtain ⟨f, hf, hfind, hm⟩ := Scope.find?_eq_some h.matches_frames hb
  obtain ⟨v, hv⟩ := Option.isSome_iff_exists.1 (Table.isSome_rowKey? hm.row)
  refine .of_run_eq_ok Promise.lax_framesFound h (Query.run_rowKey hf hv) ?_
  rw [run_readVar_row hfind, Named.rowKey, hv]
  rfl

/-- A column by ordinal, if it is one of a known table, or by key. -/
theorem Agree.column (h : scope.Live tables env) {name rowVariable columnName : String} {b : Binder}
    (hname : scope.find? name = none)
    (hsplit : Text.splitMember? name = some (rowVariable, columnName))
    (hb : scope.find? rowVariable = some (depth, b)) {ordinal : Option Nat}
    (hordinal : ∀ i, ordinal = some i →
      ∃ t, b.table = some t ∧ t.columnOrdinal? (.symbol columnName) = some i) :
    Agree scope tables Value (Query.column depth (.symbol columnName) ordinal)
      (Named.readVar name) env := by
  obtain ⟨f, hf, hfind, hm⟩ := Scope.find?_eq_some h.matches_frames hb
  have hread := run_readVar_column (Scope.find?_eq_none h.matches_frames hname) hsplit hfind
  obtain ⟨col, v, hcol, hv, hrun⟩ | ⟨_, hcol, hrun⟩ := run_column_cases hf hm hordinal
  · refine .of_run_eq_ok Promise.lax_framesFound h hrun ?_
    rw [hread, Named.column, hcol]
    dsimp only
    rw [hv]
    rfl
  · refine .of_run_eq_error Promise.lax_framesFound h hrun ?_ rfl
    rw [hread, Named.column, hcol]
    rfl

lemma Agree.readLocal (h : scope.Live tables env) {name : String}
    (hname : scope.find? name = none)
    (hrow : ∀ rowVariable columnName, Text.splitMember? name = some (rowVariable, columnName) →
      scope.find? rowVariable = none) :
    Agree scope tables Value (readLocal name) (Named.readVar name) env := by
  have hself := (Agree.simulation scope tables).congruence.readLocal name env h
  have hread := run_readVar_local (Scope.find?_eq_none h.matches_frames hname)
    fun rowVariable columnName hsplit =>
      Scope.find?_eq_none h.matches_frames (hrow rowVariable columnName hsplit)
  exact hself.congr_right hread.symm

/-- A variable means the same resolved and by name. -/
theorem Agree.resolveVar (h : scope.Live tables env) {name : String} {e : Expr}
    (he : scope.resolveVar name = .ok e) :
    Agree scope tables Value e.eval (Named.readVar name) env := by
  unfold Scope.resolveVar at he
  split at he
  · rename_i hb
    cases he
    rw [Expr.eval]
    exact .rowKey h hb
  · rename_i hname
    split at he
    · rename_i hsplit
      cases he
      rw [Expr.eval]
      refine .readLocal h hname fun rowVariable columnName hsome => ?_
      rw [hsplit] at hsome
      cases hsome
    · rename_i rowVariable columnName hsplit
      split at he
      · rename_i hrow
        cases he
        rw [Expr.eval]
        refine .readLocal h hname fun _ _ hsome => ?_
        rw [hsplit] at hsome
        cases hsome
        exact hrow
      · rename_i hb
        split at he
        · cases he
          rw [Expr.eval]
          exact .column h hname hsplit hb fun i hi => by cases hi
        · rename_i t ht
          split at he
          · rename_i i hcol
            cases he
            rw [Expr.eval]
            refine .column h hname hsplit hb fun j hj => ?_
            cases hj
            exact ⟨t, ht, hcol⟩
          · cases he

end References

end KeyedTables
