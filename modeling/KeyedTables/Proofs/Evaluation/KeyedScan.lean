import KeyedTables.Proofs.Evaluation.Operators
import KeyedTables.Proofs.Table.Build
import KeyedTables.Session

/-!
# Taking a row by its key and scanning for it

A query can take the row of a key from the index, or scan all rows for the one with this key. The
scan passes over all other rows without effect: their keys are different, so what else is tested is
not evaluated there. At the row itself both do the same, and if the test fails there, the scan ends
with nothing found. Only the operator of the frame is different, and this shows in messages only.
-/
namespace KeyedTables

namespace Environment
variable {env : Environment} {t : Table}

@[simp] theorem visit_visit (env : Environment) (row row' : Nat) :
    (env.visit row).visit row' = env.visit row' := by
  cases h : env.frames <;> simp [visit, h]

@[simp] theorem popFrame_visit (env : Environment) (row : Nat) :
    (env.visit row).popFrame = env.popFrame := by
  cases h : env.frames <;> simp [visit, popFrame, h]

structure Scanning (t : Table) (env : Environment) : Prop where
  running : env.halted = false
  query : ∃ f frames, env.frames = f :: frames ∧ f.table.table = t

lemma Scanning.visit (h : env.Scanning t) (row : Nat) : (env.visit row).Scanning t := by
  obtain ⟨hrunning, f, frames, hf, ht⟩ := h
  constructor
  · unfold Environment.visit
    rw [hf]
    exact hrunning
  · refine ⟨{ f with row, aborted := false }, frames, ?_, ht⟩
    rw [Environment.visit, hf]

lemma Scanning.interrupted_visit (h : env.Scanning t) (row : Nat) :
    (env.visit row).interrupted = false := by
  obtain ⟨hrunning, f, frames, hf, _⟩ := h
  rw [interrupted, Environment.visit, hf]
  exact Bool.or_eq_false_iff.2 ⟨hrunning, rfl⟩

lemma Scanning.run_rowKey (h : env.Scanning t) {row : Nat} {v : Value}
    (hv : t.rowKey? row = some v) :
    (Query.rowKey 0).run (env.visit row) = .ok v (env.visit row) := by
  obtain ⟨_, f, frames, hf, rfl⟩ := h
  refine Query.run_rowKey (f := { f with row, aborted := false }) ?_ hv
  rw [Environment.visit, hf]
  rfl

end Environment

/-- The test `(and (eq ?v k) test)`, `?v` being the row variable of the innermost query. -/
def Expr.keyTest (k : Value) (test : Expr) : Expr :=
  .call .and [.call .eq [.rowKey 0, .const k], test]

namespace Query
variable {env : Environment} {t : Table} {k v : Value} {test : Expr} {op : Operator} {row : Nat}

lemma run_testRow (test : Action Value) (row : Nat) (env : Environment) :
    (testRow test row).run env =
      match test.run (env.visit row) with
      | .ok v s => .ok (v.isTrue && !s.interrupted) s
      | .error e s => .error e s := by
  unfold testRow
  rw [Action.update_bind, Action.run_change, Action.run_bind]
  cases test.run (env.visit row) <;> rfl

/-- Whether the row's own key, asked for in front of a constant, is equal to it. -/
theorem run_eq_rowKey (h : (rowKey 0).run env = .ok v env) (k : Value) :
    (Expr.call .eq [.rowKey 0, .const k]).eval.run env = .ok (.boolean (k = v)) env := by
  simp only [Expr.eval, Expr.operands, Call.run, Call.runAll, Action.run_bind, h, Action.pure_eq,
    Action.run_done, Call.agree, List.all_cons, List.all_nil, Bool.and_true]
  rfl

/-- The test of a key looks at the row's own key first. -/
theorem run_keyTest (h : (rowKey 0).run env = .ok v env) (k : Value) (test : Expr) :
    (test.keyTest k).eval.run env =
      if k = v then
        match test.eval.run env with
        | .ok w s => .ok (.boolean w.isTrue) s
        | .error e s => .error e s
      else .ok (.boolean false) env := by
  have heq := run_eq_rowKey h k
  rw [Expr.keyTest, Expr.eval, Expr.operands, Expr.operands, Expr.operands, Call.run,
    Call.conjunction, Action.run_bind, heq]
  dsimp only
  rw [Value.isTrue_boolean]
  by_cases hk : k = v
  · rw [if_pos hk, if_pos (decide_eq_true hk), Call.conjunction, Action.run_bind]
    cases test.eval.run env with
    | error e s => rfl
    | ok w s =>
      dsimp only
      cases w.isTrue <;> rfl
  · rw [if_neg hk, if_neg (by rw [decide_eq_false hk]; exact Bool.false_ne_true)]
    rfl

/-- A row with another key is passed over. -/
theorem run_testRow_of_ne (h : env.Scanning t) (hv : t.rowKey? row = some v) (hne : k ≠ v) :
    (testRow (test.keyTest k).eval row).run env = .ok false (env.visit row) := by
  rw [run_testRow, run_keyTest (h.run_rowKey hv), if_neg hne]
  rfl

/-- The row with the key is tested as it would be without looking at the key. -/
theorem run_testRow_of_eq (h : env.Scanning t) (hv : t.rowKey? row = some k) :
    (testRow (test.keyTest k).eval row).run env = (testRow test.eval row).run env := by
  rw [run_testRow, run_testRow, run_keyTest (h.run_rowKey hv), if_pos rfl]
  cases test.eval.run (env.visit row) with
  | error e s => rfl
  | ok w s => simp

variable {action : Action Value} {rows : List Nat} {last : Value}

lemma run_visitRow (body : Body) (row : Nat) (env : Environment) :
    (visitRow body row).run env =
      match (testRow body.test row).run env with
      | .ok true s => body.action.run s
      | .ok false s => .ok .false s
      | .error e s => .error e s := by
  rw [visitRow, Action.run_bind]
  cases (testRow body.test row).run env with
  | error e s => rfl
  | ok passed s => cases passed <;> rfl

/-- The first row that passes the test ends the scan. -/
theorem run_scan_cons (body : Body) (row : Nat) (rows : List Nat) (last : Value)
    (env : Environment) :
    (scan .doForRow body (row :: rows) last).run env =
      match (testRow body.test row).run env with
      | .ok true s => body.action.run s
      | .ok false s => if s.interrupted then .ok last s else (scan .doForRow body rows last).run s
      | .error e s => .error e s := by
  rw [scan, Action.run_bind]
  cases (testRow body.test row).run env with
  | error e s => rfl
  | ok passed s =>
    cases passed with
    | true =>
      change (onMatch .doForRow body.action >>= _).run s = body.action.run s
      rw [Action.run_bind, onMatch, Action.run_bind]
      cases body.action.run s <;> rfl
    | false =>
      change (if s.interrupted then _ else _ : Action Value).run s = if s.interrupted then _ else _
      cases s.interrupted <;> rfl

/-- A scan begins by moving to its first row, wherever it was before. -/
theorem run_scan_cons_visit (op : Operator) (body : Body) (row' : Nat) :
    (scan op body (row :: rows) last).run (env.visit row') =
      (scan op body (row :: rows) last).run env := by
  rw [scan, Action.run_bind, Action.run_bind, run_testRow, run_testRow, Environment.visit_visit]

lemma run_scan_of_ne (h : env.Scanning t) (hv : t.rowKey? row = some v) (hne : k ≠ v) :
    (scan op ⟨(test.keyTest k).eval, action⟩ (row :: rows) last).run env =
      (scan op ⟨(test.keyTest k).eval, action⟩ rows last).run (env.visit row) := by
  rw [scan, Action.run_bind_of_ok (run_testRow_of_ne h hv hne)]
  change (if (env.visit row).interrupted then _ else _ : Action Value).run (env.visit row) = _
  rw [h.interrupted_visit row]
  rfl

/-- Rows with other keys in front are passed over. -/
theorem run_scan_append (h : env.Scanning t) {before : List Nat}
    (hbefore : ∀ r ∈ before, ∃ v, t.rowKey? r = some v ∧ k ≠ v) :
    (scan op ⟨(test.keyTest k).eval, action⟩ (before ++ row :: rows) last).run env =
      (scan op ⟨(test.keyTest k).eval, action⟩ (row :: rows) last).run env := by
  induction before generalizing env with
  | nil => rfl
  | cons r before ih =>
    obtain ⟨v, hv, hne⟩ := hbefore r List.mem_cons_self
    rw [List.cons_append, run_scan_of_ne h hv hne,
      ih (h.visit r) fun r' hr' => hbefore r' (List.mem_cons_of_mem r hr'), run_scan_cons_visit]

/-- With rows of other keys only, a scan ends with what it had before, and has but moved. -/
theorem run_scan_of_forall_ne (h : env.Scanning t)
    (hrows : ∀ r ∈ rows, ∃ v, t.rowKey? r = some v ∧ k ≠ v) :
    ∃ s, (scan op ⟨(test.keyTest k).eval, action⟩ rows last).run env = .ok last s ∧
      s.popFrame = env.popFrame := by
  induction rows generalizing env with
  | nil => exact ⟨env, rfl, rfl⟩
  | cons r rows ih =>
    obtain ⟨v, hv, hne⟩ := hrows r List.mem_cons_self
    obtain ⟨s, hs, hpop⟩ := ih (h.visit r) fun r' hr' => hrows r' (List.mem_cons_of_mem r hr')
    rw [Environment.popFrame_visit] at hpop
    exact ⟨s, (run_scan_of_ne h hv hne).trans hs, hpop⟩

/-- Evaluating a test leaves a scan going, unless it interrupts it. -/
theorem scanning_of_eval (h : env.Scanning t) {e : Expr} {s : Environment}
    (hs : e.eval.run env = .ok v s) (hinterrupted : s.interrupted = false) : s.Scanning t := by
  obtain ⟨_, f, frames, hf, ht⟩ := h
  have hending := (disciplined_eval [] e env).last
  rw [Action.final_of_ok hs] at hending
  have hmoved := hending.frames.moved
  rw [hf] at hmoved
  obtain ⟨f', hf', _, _, htable⟩ := hmoved.of_cons
  refine ⟨(Bool.or_eq_false_iff.1 hinterrupted).1, f', frames, hf', ?_⟩
  rw [htable, ht]

/-- Scanning for a key comes to the same as taking the row that has it. -/
theorem run_scan_eq_visitRow (h : env.Scanning t) (hrow : row < t.rowCount)
    (hv : t.rowKey? row = some k) :
    ((scan .doForRow ⟨(test.keyTest k).eval, action⟩ (List.range t.rowCount) .false).ending
        Environment.popFrame).run env =
      ((visitRow ⟨test.eval, action⟩ row).ending Environment.popFrame).run env := by
  have hothers : ∀ r, r < t.rowCount → r ≠ row → ∃ v, t.rowKey? r = some v ∧ k ≠ v := by
    intro r hr hne
    obtain ⟨v, hkey⟩ := Option.isSome_iff_exists.1 (Table.isSome_rowKey? hr)
    refine ⟨v, hkey, ?_⟩
    rintro rfl
    exact hne (Table.rowKey?_injective hr hrow (hkey.trans hv.symm))
  obtain ⟨before, after, hrange⟩ := List.append_of_mem (List.mem_range.2 hrow)
  have hlt : ∀ r ∈ before ++ row :: after, r < t.rowCount := fun r hr =>
    List.mem_range.1 (hrange ▸ hr)
  have hnodup : (before ++ row :: after).Nodup := hrange ▸ List.nodup_range
  rw [List.nodup_middle, List.nodup_cons, List.mem_append, not_or] at hnodup
  have hbefore : ∀ r ∈ before, ∃ v, t.rowKey? r = some v ∧ k ≠ v := fun r hr =>
    hothers r (hlt r (List.mem_append_left _ hr)) fun heq => hnodup.1.1 (heq ▸ hr)
  have hafter : ∀ r ∈ after, ∃ v, t.rowKey? r = some v ∧ k ≠ v := fun r hr =>
    hothers r (hlt r (List.mem_append_right _ (List.mem_cons_of_mem row hr)))
      fun heq => hnodup.1.2 (heq ▸ hr)
  rw [Action.run_ending, Action.run_ending, hrange, run_scan_append h hbefore, run_scan_cons,
    run_visitRow, run_testRow_of_eq h hv, run_testRow]
  cases htest : test.eval.run (env.visit row) with
  | error e s => rfl
  | ok w s =>
    dsimp only
    cases w.isTrue && !s.interrupted with
    | true => rfl
    | false =>
      dsimp only
      cases hinterrupted : s.interrupted with
      | true => rfl
      | false =>
        have hs := scanning_of_eval (h.visit row) htest hinterrupted
        obtain ⟨s', hrun, hpop⟩ : ∃ s', (scan .doForRow ⟨(test.keyTest k).eval, action⟩ after
            .false).run s = .ok .false s' ∧ s'.popFrame = s.popFrame :=
          run_scan_of_forall_ne hs hafter
        rw [if_neg Bool.false_ne_true, hrun]
        exact congrArg _ hpop

abbrev bodyOf (test : Expr) (action : Option Expr) : Body :=
  ⟨test.eval, (Expr.evalOption action).getD (pure .false)⟩

theorem disciplined_action (test : Expr) (action : Option Expr) (env : Environment) :
    Disciplined Marked [] (bodyOf test action).action env := by
  cases action with
  | none => exact disciplined_eval [] (.const .false) env
  | some a => exact disciplined_eval [] a env

/-- Taking a row leaves the frames as they were. -/
theorem frames_final_visitRow (f : Frame) (test : Expr) (action : Option Expr) (row : Nat)
    (env : Environment) :
    ((inFrame f (visitRow (bodyOf test action) row)).final env).frames = env.frames := by
  have hvisits : Disciplined Moved []
      (visits .doForThisRow f.table.table row (bodyOf test action)) (env.pushFrame f) :=
    disciplined_visits (disciplined_eval [] test) (disciplined_action test action) _ _ _ _
  rw [final_inFrame]
  exact hvisits.last.frames.frames_popFrame

/-- In its frame, a query that takes the row of a key comes to the same as one that scans for it. -/
theorem run_inFrame_visitRow {u : Installed} (hrunning : env.halted = false)
    (hrow : u.table.rowOrdinal? k = some row) (x : String) (test : Expr) (action : Option Expr) :
    ResultUpToOperator Eq
      ((inFrame ⟨.doForThisRow, x, u, row, false⟩ (visitRow (bodyOf test action) row)).run env)
      ((inFrame ⟨.doForRow, x, u, 0, false⟩
        (scan .doForRow (bodyOf (test.keyTest k) action) (List.range u.table.rowCount) .false)).run
          env) := by
  have hscanning : (env.pushFrame ⟨.doForRow, x, u, 0, false⟩).Scanning u.table :=
    ⟨hrunning, _, _, rfl, rfl⟩
  have hscan : (inFrame ⟨.doForRow, x, u, 0, false⟩
      (scan .doForRow (bodyOf (test.keyTest k) action) (List.range u.table.rowCount) .false)).run
        env =
      (inFrame ⟨.doForRow, x, u, row, false⟩ (visitRow (bodyOf test action) row)).run env :=
    (run_scan_eq_visitRow hscanning (Table.lt_of_rowOrdinal? hrow)
      (Table.rowKey?_of_rowOrdinal? hrow)).trans rfl
  have haction : OperatorBlind Value (bodyOf test action).action (bodyOf test action).action := by
    cases action with
    | none => exact OperatorBlind.done _
    | some a => exact OperatorBlind.eval a
  have hframe : Frame.anonymous ⟨.doForThisRow, x, u, row, false⟩ =
      Frame.anonymous ⟨.doForRow, x, u, row, false⟩ := rfl
  rw [hscan]
  refine ResultUpToOperator.of_frames_eq (OperatorBlind.inFrame hframe
    (OperatorBlind.visitRow (OperatorBlind.eval test) haction row) env env rfl) ?_
  rw [frames_final_visitRow, frames_final_visitRow]

end Query

/-- Taking the row of a key from the index comes to the same as scanning the table for the row whose
key is equal to it, with the same value or error and the same environment in the end. Only the
operator differs that is named when a column is missing. -/
theorem eval_doForThisRow_eq_doForRow {env : Environment} (hrunning : env.halted = false)
    {t : Installed} {k : Value} (hk : (t.table.rowOrdinal? k).isSome = true) (v : String)
    (test : Expr) (action : Option Expr) :
    ResultUpToOperator Eq
      ((Expr.query .doForThisRow v (.known t) (some (.const k)) test action).eval.run env)
      ((Expr.query .doForRow v (.known t) none (test.keyTest k) action).eval.run env) := by
  obtain ⟨row, hrow⟩ := Option.isSome_iff_exists.1 hk
  rw [Expr.eval, Expr.eval, Query.run, Query.run, Expr.evalTarget, Expr.evalTarget,
    Expr.evalOption, Expr.evalOption, Action.run_bind, Action.run_bind]
  cases hfind : (Query.findKnown t).run env with
  | error e s => exact .error (.refl e) rfl
  | ok u s =>
    obtain ⟨rfl, rfl, _⟩ := Query.findKnown_eq_ok hfind
    dsimp only
    rw [Action.environment_bind, Action.environment_bind, Action.run_read, Action.run_read]
    split
    · exact .error (.refl _) rfl
    · have hstart : (Query.startRow .doForThisRow u.table (some (Expr.const k).eval)).run s =
          .ok row s := by
        simp only [Query.startRow, Expr.eval, Action.pure_eq, Action.done_bind, hrow,
          Action.run_done]
      rw [Action.run_bind_of_ok hstart]
      exact Query.run_inFrame_visitRow hrunning hrow v test action

/-- A test that prints lets one row pass, and the action asks it for a column that is not there. -/
theorem eval_doForThisRow_eq_doForRow_of_missing_column :
    let env := (Session.run .default [.build "(deftable accounts (id name) (1 Al) (2 Bo))"]).env
    let test := Expr.call .not [.call .printout [.rowKey 0, .column 0 (.symbol "name") (some 1)]]
    let action := some (Expr.column 0 (.symbol "age") none)
    ∃ t, (env.catalog.find "accounts").toOption = some t ∧ env.halted = false ∧
      (t.table.rowOrdinal? (.integer 2)).isSome = true ∧
        let keyed :=
          Expr.query .doForThisRow "a" (.known t) (some (.const (.integer 2))) test action
        let scan := Expr.query .doForRow "a" (.known t) none (test.keyTest (.integer 2)) action
        ResultUpToOperator Eq (keyed.eval.run env) (scan.eval.run env) ∧
          (keyed.eval.final env).output = "Bo" ∧
            (keyed.eval.error? env).map Error.message = some ("do-for-this-row: variable ?a " ++
              "refers to column age which does not exist in table accounts") ∧
            (scan.eval.error? env).map Error.message = some ("do-for-row: variable ?a " ++
              "refers to column age which does not exist in table accounts") := by
  intro env test action
  obtain ⟨t, ht, hp⟩ := (Option.any_eq_true (x := (env.catalog.find "accounts").toOption)
    (p := fun t : Installed => decide (env.halted = false ∧
      (t.table.rowOrdinal? (.integer 2)).isSome = true ∧
        let keyed :=
          Expr.query .doForThisRow "a" (.known t) (some (.const (.integer 2))) test action
        let scan := Expr.query .doForRow "a" (.known t) none (test.keyTest (.integer 2)) action
        (keyed.eval.final env).output = "Bo" ∧
          (keyed.eval.error? env).map Error.message = some ("do-for-this-row: variable ?a " ++
            "refers to column age which does not exist in table accounts") ∧
          (scan.eval.error? env).map Error.message = some ("do-for-row: variable ?a " ++
            "refers to column age which does not exist in table accounts")))).1 (by decide +kernel)
  obtain ⟨hrunning, hk, hobserved⟩ := of_decide_eq_true hp
  exact ⟨t, ht, hrunning, hk,
    eval_doForThisRow_eq_doForRow hrunning hk "a" test action, hobserved⟩

end KeyedTables
