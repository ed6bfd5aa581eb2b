import KeyedTables.Proofs.Evaluation.KeyedScan

/-!
# The visits of a scan

A query that scans a table visits its rows in order, each from where the visit before it finished.
A visit is an evaluation of the test and, if the test holds and the query is not to stop, the
evaluation of an answer: that there is a row, the row's key, or what the action comes to. A visit
that fails, that is interrupted, or that has the answer to a query for one row is the last, and
there is no other reason to leave rows unvisited.
-/
namespace KeyedTables

lemma Marked.of_cons {f : Frame} {frames after : List Frame} (h : Marked (f :: frames) after) :
    ∃ aborted, after = { f with aborted } :: frames := by
  cases h with
  | same => exact ⟨f.aborted, rfl⟩
  | abort => exact ⟨true, rfl⟩

/-- A query that moves to a row is at this row, and no longer told to stop. -/
theorem Moved.frames_visit {f : Frame} {frames : List Frame} {env : Environment}
    (h : Moved (f :: frames) env.frames) (row : Nat) :
    (env.visit row).frames = { f with row, aborted := false } :: frames := by
  rw [Environment.visit]
  generalize env.frames = after at h
  cases h <;> rfl

namespace Query

/-- What an operator answers at a row that passed the test. Only some operators evaluate the
action. -/
def answering (op : Operator) (action : Action Value) : Action Value :=
  match op with
  | .rowExists => pure (.boolean true)
  | .findRow => rowKey 0
  | .doForRow | .doForThisRow | .doForAllRows => action

/-- Test and answer at the row that the innermost query is at. -/
def atRow (op : Operator) (body : Body) : Action (Option Value) := do
  let v ← body.test
  if v.isTrue && !(← .environment).interrupted then
    let a ← answering op body.action
    pure (some a)
  else pure none

lemma onMatch_eq (op : Operator) (action : Action Value) :
    onMatch op action =
      answering op action >>= fun v => pure (if op = .doForAllRows then .more v else .done v) := by
  cases op <;> rfl

/-- A scan moves to its first row, evaluates test and answer there, and goes on behind it if there
is reason to. -/
theorem scan_cons (op : Operator) (body : Body) (row : Nat) (rows : List Nat) (last : Value) :
    scan op body (row :: rows) last = (do
      .update (·.visit row)
      let a ← atRow op body
      if a.isSome && op ≠ .doForAllRows then pure (a.getD last)
      else if (← .environment).interrupted then pure (a.getD last)
      else scan op body rows (a.getD last)) := by
  rw [scan, testRow, atRow]
  simp only [Action.bind_bind, onMatch_eq]
  congr 1
  funext _
  congr 1
  funext v
  rw [Action.environment_bind, Action.environment_bind, Action.environment_bind]
  congr 1
  funext s
  rw [Action.pure_eq, Action.done_bind]
  cases v.isTrue && !s.interrupted with
  | false => rfl
  | true =>
    rw [if_pos rfl, if_pos rfl, Action.bind_bind]
    congr 1
    funext a
    by_cases hop : op = .doForAllRows
    · subst hop
      rfl
    · rw [if_neg hop]
      simp [hop]

/-- A row that a scan comes to, and the environment in which the test begins there. -/
structure Visit where
  row : Nat
  start : Environment

namespace Visit
variable (op : Operator) (body : Body) (v : Visit)

def afterTest : Environment := body.test.final v.start

def passes : Bool := (body.test.value? v.start).any Value.isTrue && !(v.afterTest body).interrupted

def finish : Environment :=
  if v.passes body then (answering op body.action).final (v.afterTest body) else v.afterTest body

/-- The environments on the way: those of the test, and those of the answer if there is to be
one. -/
def trace : List Environment :=
  if v.passes body then
    body.test.trace v.start ++ ((answering op body.action).trace (v.afterTest body)).tail
  else body.test.trace v.start

def answer? : Option Value :=
  if v.passes body then (answering op body.action).value? (v.afterTest body) else none

def error? : Option Error :=
  if v.passes body then (answering op body.action).error? (v.afterTest body)
  else body.test.error? v.start

/-- Why no row is visited behind this one. -/
inductive Ends : Prop
  | fails : (v.error? op body).isSome = true → Ends
  | answers : v.passes body = true → op ≠ .doForAllRows → Ends
  | interrupted : (v.finish op body).interrupted = true → Ends

variable {op body v}

lemma passes_of_ok {w : Value} {s : Environment} (h : body.test.run v.start = .ok w s) :
    v.passes body = (w.isTrue && !s.interrupted) := by
  rw [passes, Action.value?, h, afterTest, Action.final_of_ok h]
  rfl

lemma passes_of_error {e : Error} {s : Environment} (h : body.test.run v.start = .error e s) :
    v.passes body = false := by
  rw [passes, Action.value?, h]
  rfl

lemma interrupted_afterTest (h : v.passes body = true) :
    (v.afterTest body).interrupted = false := by
  rw [passes, Bool.and_eq_true, Bool.not_eq_true'] at h
  exact h.2

/-- What test and answer come to. -/
theorem run_atRow (op : Operator) (body : Body) (v : Visit) :
    (atRow op body).run v.start =
      match v.error? op body with
      | some e => .error e (v.finish op body)
      | none => .ok (v.answer? op body) (v.finish op body) := by
  rw [atRow, Action.run_bind]
  cases h : body.test.run v.start with
  | error e s =>
    simp [error?, finish, passes_of_error h, Action.error?, h, afterTest, Action.final_of_error h]
  | ok w s =>
    have hpasses := passes_of_ok h
    dsimp only
    rw [Action.environment_bind, Action.run_read, error?, finish, answer?, hpasses, afterTest,
      Action.final_of_ok h]
    cases w.isTrue && !s.interrupted with
    | false =>
      simp [Action.error?, h]
    | true =>
      rw [if_pos rfl, if_pos rfl, if_pos rfl, if_pos rfl, Action.run_bind, Action.error?,
        Action.value?, Action.final, Eval.final]
      cases (answering op body.action).run s <;> rfl

lemma trace_atRow (op : Operator) (body : Body) (v : Visit) :
    (atRow op body).trace v.start = v.trace op body := by
  rw [atRow, Action.trace_bind, trace]
  cases h : body.test.run v.start with
  | error e s => rw [passes_of_error h, if_neg Bool.false_ne_true]
  | ok w s =>
    rw [passes_of_ok h, afterTest, Action.final_of_ok h]
    dsimp only
    rw [Action.environment_bind, Action.trace]
    cases w.isTrue && !s.interrupted with
    | false => exact List.append_nil _
    | true =>
      rw [if_pos rfl, if_pos rfl, Action.trace_bind]
      cases (answering op body.action).run s <;> simp [Action.trace]

/-- A visit that passed the test and did not fail has an answer. -/
theorem isSome_answer? (hpasses : v.passes body = true) (herror : v.error? op body = none) :
    (v.answer? op body).isSome = true := by
  rw [error?, if_pos hpasses, Action.error?] at herror
  rw [answer?, if_pos hpasses, Action.value?]
  cases h : (answering op body.action).run (v.afterTest body) with
  | ok a s => rfl
  | error e s =>
    rw [h] at herror
    cases herror

lemma answer?_eq_none (hpasses : v.passes body = false) : v.answer? op body = none := by
  rw [answer?, hpasses]
  rfl

/-- A visit that failed has no answer. -/
theorem answer?_of_error {e : Error} (herror : v.error? op body = some e) :
    v.answer? op body = none := by
  rw [answer?]
  split
  · rename_i hpasses
    rw [error?, if_pos hpasses] at herror
    obtain ⟨s, hrun⟩ := Action.run_of_error? herror
    rw [Action.value?, hrun]
  · rfl

/-- What there is no reason to end a scan for. -/
theorem of_not_ends (h : ¬ v.Ends op body) : v.error? op body = none ∧
    (op ≠ .doForAllRows → v.passes body = false) ∧ (v.finish op body).interrupted = false := by
  refine ⟨?_, fun hop => ?_, ?_⟩
  · rw [← Option.not_isSome_iff_eq_none]
    exact fun hfails => h (.fails hfails)
  · exact Bool.eq_false_iff.2 fun hpasses => h (.answers hpasses hop)
  · exact Bool.eq_false_iff.2 fun hinterrupted => h (.interrupted hinterrupted)

/-- Test and answer leave the frames alone, but for telling the query to stop. -/
theorem marked_finish (htest : ∀ env, Disciplined Marked [] body.test env)
    (haction : ∀ env, Disciplined Marked [] body.action env) (v : Visit) :
    Marked v.start.frames (v.finish op body).frames := by
  have hafter : Marked v.start.frames (v.afterTest body).frames := (htest v.start).last.frames
  rw [finish]
  split
  · refine Marked.frameRelation.trans hafter ?_
    cases op with
    | rowExists => exact .same _
    | findRow => exact (disciplined_eval [] (.rowKey 0) (v.afterTest body)).last.frames
    | doForRow | doForThisRow | doForAllRows => exact (haction (v.afterTest body)).last.frames
  · exact hafter

end Visit

section Scan
variable {op : Operator} {body : Body} {row : Nat} {rows : List Nat} {last : Value}
  {env : Environment} {v : Visit}

/-- A scan ends with a visit for which there is a reason. -/
theorem scan_of_ends (hv : v = ⟨row, env.visit row⟩) (h : v.Ends op body) (rows : List Nat)
    (last : Value) :
    (scan op body (row :: rows) last).run env =
        (match v.error? op body with
          | some e => .error e (v.finish op body)
          | none => .ok ((v.answer? op body).getD last) (v.finish op body)) ∧
      (scan op body (row :: rows) last).trace env = env :: v.trace op body := by
  subst hv
  rw [scan_cons, Action.update_bind, Action.run_change, Action.trace, Action.run_bind,
    Action.trace_bind, Visit.run_atRow op body ⟨row, env.visit row⟩,
    Visit.trace_atRow op body ⟨row, env.visit row⟩]
  cases herror : Visit.error? op body ⟨row, env.visit row⟩ with
  | some e => exact ⟨rfl, rfl⟩
  | none =>
    dsimp only
    split
    · exact ⟨rfl, by simp [Action.trace]⟩
    · rename_i hgoes
      have hinterrupted : (Visit.finish op body ⟨row, env.visit row⟩).interrupted = true := by
        cases h with
        | fails hfails =>
          rw [herror] at hfails
          cases hfails
        | answers hpasses hop =>
          rw [Visit.isSome_answer? hpasses herror] at hgoes
          exact absurd (decide_eq_true hop) hgoes
        | interrupted h => exact h
      rw [Action.environment_bind, Action.run_read, Action.trace, hinterrupted, if_pos rfl]
      exact ⟨rfl, by simp [Action.trace]⟩

/-- Without a reason to end, a scan goes on with the rows behind, having an answer or not. -/
theorem scan_of_not_ends (hv : v = ⟨row, env.visit row⟩) (h : ¬ v.Ends op body) (rows : List Nat)
    (last : Value) :
    (scan op body (row :: rows) last).run env =
        (scan op body rows ((v.answer? op body).getD last)).run (v.finish op body) ∧
      (scan op body (row :: rows) last).trace env = env :: (v.trace op body ++
        ((scan op body rows ((v.answer? op body).getD last)).trace (v.finish op body)).tail) := by
  obtain ⟨herror, hnext, hrunning⟩ := Visit.of_not_ends h
  have hgoes : ((v.answer? op body).isSome && op ≠ .doForAllRows) = false := by
    by_cases hop : op = .doForAllRows
    · simp [hop]
    · rw [Visit.answer?_eq_none (hnext hop), Option.isSome_none, Bool.false_and]
  subst hv
  rw [scan_cons, Action.update_bind, Action.run_change, Action.trace, Action.run_bind,
    Action.trace_bind, Visit.run_atRow op body ⟨row, env.visit row⟩,
    Visit.trace_atRow op body ⟨row, env.visit row⟩, herror]
  dsimp only
  rw [hgoes, if_neg Bool.false_ne_true, Action.environment_bind, Action.run_read, Action.trace,
    hrunning, if_neg Bool.false_ne_true]
  exact ⟨rfl, rfl⟩

end Scan

/-- The environment in which visits end. -/
def reached (op : Operator) (body : Body) (env : Environment) (visits : List Visit) :
    Environment := (visits.map (Visit.finish op body)).getLastD env

lemma reached_cons (op : Operator) (body : Body) (env : Environment) (v : Visit)
    (visits : List Visit) :
    reached op body env (v :: visits) = reached op body (v.finish op body) visits :=
  List.getLastD_cons

/-- Rows are visited one after another, up to a visit that ends the scan. -/
inductive Scanned (op : Operator) (body : Body) : Environment → List Nat → List Visit → Prop
  | nil (env : Environment) : Scanned op body env [] []
  | last {env : Environment} {row : Nat} {rows : List Nat} {v : Visit} :
    v = ⟨row, env.visit row⟩ → v.Ends op body → Scanned op body env (row :: rows) [v]
  | next {env : Environment} {row : Nat} {rows : List Nat} {v : Visit} {visits : List Visit} :
    v = ⟨row, env.visit row⟩ → ¬ v.Ends op body → Scanned op body (v.finish op body) rows visits →
    Scanned op body env (row :: rows) (v :: visits)

lemma exists_scanned (op : Operator) (body : Body) (rows : List Nat) (env : Environment) :
    ∃ visits, Scanned op body env rows visits := by
  induction rows generalizing env with
  | nil => exact ⟨[], .nil env⟩
  | cons row rows ih =>
    by_cases hends : Visit.Ends op body ⟨row, env.visit row⟩
    · exact ⟨_, .last rfl hends⟩
    · obtain ⟨visits, hvisits⟩ := ih (Visit.finish op body ⟨row, env.visit row⟩)
      exact ⟨_, .next rfl hends hvisits⟩

namespace Scanned
variable {op : Operator} {body : Body} {env : Environment} {rows : List Nat} {visits : List Visit}

/-- A scan comes to what its visits come to: the error of one that fails, and otherwise the last
answer. -/
theorem run_scan (h : Scanned op body env rows visits) (last : Value) :
    (scan op body rows last).run env =
      match visits.findSome? (Visit.error? op body) with
      | some e => .error e (reached op body env visits)
      | none =>
        .ok ((visits.filterMap (Visit.answer? op body)).getLastD last)
          (reached op body env visits) := by
  induction h generalizing last with
  | nil env => rfl
  | last hv hends =>
    rename_i env row rows v
    rw [(scan_of_ends hv hends rows last).1, List.findSome?_singleton]
    cases hanswer : v.answer? op body <;> simp [reached, hanswer]
  | next hv hends _ ih =>
    rename_i env row rows v visits _
    rw [(scan_of_not_ends hv hends rows last).1, ih, List.findSome?_cons,
      (Visit.of_not_ends hends).1, reached_cons, List.filterMap_cons]
    cases v.answer? op body with
    | none => rfl
    | some a =>
      dsimp only
      rw [List.getLastD_cons, Option.getD_some]

lemma trace_scan (h : Scanned op body env rows visits) (last : Value) :
    (scan op body rows last).trace env = env :: visits.flatMap (Visit.trace op body) := by
  induction h generalizing last with
  | nil env => rfl
  | last hv hends => rw [(scan_of_ends hv hends _ last).2, List.flatMap_singleton]
  | next hv hends _ ih =>
    rw [(scan_of_not_ends hv hends _ last).2, ih, List.tail_cons, List.flatMap_cons]

lemma rows_prefix (h : Scanned op body env rows visits) : visits.map Visit.row <+: rows := by
  induction h with
  | nil env => exact List.prefix_rfl
  | last hv _ =>
    subst hv
    exact ⟨_, rfl⟩
  | next hv _ _ ih =>
    subst hv
    exact List.cons_prefix_cons.2 ⟨rfl, ih⟩

/-- A visit starts where the one before it finished, and ends the scan only if none follows. -/
theorem of_append (h : Scanned op body env rows visits) {before after : List Visit} {v : Visit}
    (hv : visits = before ++ v :: after) :
    v.start = (reached op body env before).visit v.row ∧ (after ≠ [] → ¬ v.Ends op body) := by
  induction h generalizing before with
  | nil env => simp at hv
  | last hfirst _ =>
    cases before with
    | nil =>
      cases hv
      subst hfirst
      exact ⟨rfl, fun hne => absurd rfl hne⟩
    | cons u before => simp at hv
  | next hfirst hends _ ih =>
    cases before with
    | nil =>
      cases hv
      subst hfirst
      exact ⟨rfl, fun _ => hends⟩
    | cons u before =>
      cases hv
      obtain ⟨hstart, hrest⟩ := ih rfl
      refine ⟨?_, hrest⟩
      rw [hstart, reached_cons]

/-- Rows are left unvisited only behind a visit that ends the scan. -/
theorem exists_ends (h : Scanned op body env rows visits) (hlength : visits.length < rows.length) :
    ∃ v, visits.getLast? = some v ∧ v.Ends op body := by
  induction h with
  | nil env => cases hlength
  | last _ hends => exact ⟨_, rfl, hends⟩
  | next _ _ _ ih =>
    obtain ⟨v, hlast, hends⟩ := ih (Nat.lt_of_succ_lt_succ hlength)
    exact ⟨v, by rw [List.getLast?_cons, hlast]; rfl, hends⟩

/-- All visits take place in the query's own frame, which is brought to their row and not yet told
to stop. -/
theorem frames {f : Frame} {frames : List Frame} (h : Scanned op body env rows visits)
    (htest : ∀ env, Disciplined Marked [] body.test env)
    (haction : ∀ env, Disciplined Marked [] body.action env)
    (henv : Moved (f :: frames) env.frames) :
    ∀ v ∈ visits, v.start.frames = { f with row := v.row, aborted := false } :: frames ∧
      Marked v.start.frames (v.afterTest body).frames ∧
      Marked v.start.frames (v.finish op body).frames := by
  have hvisit : ∀ (env : Environment) (row : Nat), Moved (f :: frames) env.frames →
      ∀ v : Visit, v = ⟨row, env.visit row⟩ →
        v.start.frames = { f with row := v.row, aborted := false } :: frames ∧
          Marked v.start.frames (v.afterTest body).frames ∧
          Marked v.start.frames (v.finish op body).frames := by
    rintro env row hmoved v rfl
    exact ⟨hmoved.frames_visit row, (htest _).last.frames,
      (Visit.marked_finish htest haction _)⟩
  induction h with
  | nil env => simp
  | last hv _ => exact List.forall_mem_singleton.2 (hvisit _ _ henv _ hv)
  | next hv _ _ ih =>
    obtain ⟨hstart, hafter, hfinish⟩ := hvisit _ _ henv _ hv
    refine List.forall_mem_cons.2 ⟨⟨hstart, hafter, hfinish⟩, ih ?_⟩
    rw [hstart] at hfinish
    exact Moved.frameRelation.trans (.visit f _ false frames) hfinish.moved

lemma final_scan (h : Scanned op body env rows visits) (last : Value) :
    (scan op body rows last).final env = reached op body env visits := by
  rw [Action.final, Eval.final, h.run_scan]
  cases visits.findSome? (Visit.error? op body) <;> rfl

end Scanned

/-- How a query scans its table in a frame, put on top of those of an environment. -/
structure Scans (f : Frame) (body : Body) (env : Environment) (visits : List Visit) : Prop where
  /-- The first rows are visited, in order and each once. -/
  rows : visits.map Visit.row = List.range visits.length
  length_le : visits.length ≤ f.table.table.rowCount
  /-- A visit starts where the one before it finished, and if it is not the last, there is no
  reason to end the scan. -/
  step : ∀ before v after, visits = before ++ v :: after →
    v.start = (reached f.op body (env.pushFrame f) before).visit v.row ∧
      (after ≠ [] → ¬ v.Ends f.op body)
  /-- Test and answer begin and end in the query's own frame, which is at the row. -/
  frames : ∀ v ∈ visits,
    v.start.frames = { f with row := v.row, aborted := false } :: env.frames ∧
      (∃ aborted, (v.afterTest body).frames = { f with row := v.row, aborted } :: env.frames) ∧
      ∃ aborted, (v.finish f.op body).frames = { f with row := v.row, aborted } :: env.frames
  /-- If there are rows left, the last visit ended the scan. -/
  ends : visits.length < f.table.table.rowCount →
    ∃ v, visits.getLast? = some v ∧ v.Ends f.op body

section Frame
variable {f : Frame} {body : Body} {env : Environment} {visits : List Visit} {v : Visit}

lemma scans_of_scanned
    (h : Scanned f.op body (env.pushFrame f) (List.range f.table.table.rowCount) visits)
    (htest : ∀ env, Disciplined Marked [] body.test env)
    (haction : ∀ env, Disciplined Marked [] body.action env) : Scans f body env visits where
  rows := by
    have htake := List.prefix_iff_eq_take.1 h.rows_prefix
    have hle : visits.length ≤ f.table.table.rowCount := by
      simpa using h.rows_prefix.length_le
    rwa [List.length_map, List.take_range, Nat.min_eq_left hle] at htake
  length_le := by simpa using h.rows_prefix.length_le
  step _ _ _ hv := h.of_append hv
  frames v hv := by
    obtain ⟨hstart, hafter, hfinish⟩ := h.frames htest haction (.same _) v hv
    rw [hstart] at hafter hfinish
    exact ⟨hstart, hafter.of_cons, hfinish.of_cons⟩
  ends hlt := h.exists_ends (by rwa [List.length_range])

namespace Scans

/-- Nothing is visited behind a row that ends the scan. -/
theorem getLast?_of_ends (h : Scans f body env visits) (hv : v ∈ visits)
    (hends : v.Ends f.op body) : visits.getLast? = some v := by
  obtain ⟨before, after, rfl⟩ := List.append_of_mem hv
  have hafter : after = [] := by
    by_contra hne
    exact (h.step before v after rfl).2 hne hends
  rw [hafter, List.getLast?_append_cons, List.getLast?_singleton]

/-- The answer is only evaluated while the query is not to stop. -/
theorem running_of_passes (h : Scans f body env visits) (hv : v ∈ visits)
    (hpasses : v.passes body = true) : (v.afterTest body).halted = false ∧
      (v.afterTest body).frames = { f with row := v.row, aborted := false } :: env.frames := by
  have hrunning := Visit.interrupted_afterTest hpasses
  obtain ⟨_, ⟨aborted, hframes⟩, _⟩ := h.frames v hv
  rw [Environment.interrupted, hframes] at hrunning
  obtain ⟨hhalted, haborted⟩ := Bool.or_eq_false_iff.1 hrunning
  have hclear : aborted = false := haborted
  exact ⟨hhalted, by rw [hframes, hclear]⟩

/-- What comes of a query is decided by the visit with the answer to a query for one row. -/
theorem outcome_of_passes (h : Scans f body env visits) (hv : v ∈ visits)
    (hpasses : v.passes body = true) (hop : f.op ≠ .doForAllRows) :
    visits.findSome? (Visit.error? f.op body) = v.error? f.op body ∧
      visits.filterMap (Visit.answer? f.op body) = (v.answer? f.op body).toList := by
  obtain ⟨before, rfl⟩ := List.getLast?_eq_some_iff.1 (h.getLast?_of_ends hv (.answers hpasses hop))
  have hbefore : ∀ u ∈ before, u.error? f.op body = none ∧ u.answer? f.op body = none := by
    intro u hu
    obtain ⟨before', after', rfl⟩ := List.append_of_mem hu
    obtain ⟨herror, hnext, _⟩ := Visit.of_not_ends
      ((h.step before' u (after' ++ [v]) (by simp)).2 (by simp))
    exact ⟨herror, Visit.answer?_eq_none (hnext hop)⟩
  constructor
  · rw [List.findSome?_append, List.findSome?_eq_none_iff.2 fun u hu => (hbefore u hu).1,
      Option.none_or, List.findSome?_singleton]
  · rw [List.filterMap_append, List.filterMap_eq_nil_iff.2 fun u hu => (hbefore u hu).2,
      List.nil_append]
    cases hanswer : v.answer? f.op body <;> simp [hanswer]

/-- So the value is the answer of this visit, if it has not failed. -/
theorem value_of_passes (h : Scans f body env visits) (hv : v ∈ visits)
    (hpasses : v.passes body = true) (hop : f.op ≠ .doForAllRows) :
    (match visits.findSome? (Visit.error? f.op body) with
      | some _ => none
      | none => some ((visits.filterMap (Visit.answer? f.op body)).getLastD .false)) =
      v.answer? f.op body := by
  obtain ⟨herrors, hanswers⟩ := h.outcome_of_passes hv hpasses hop
  rw [herrors, hanswers]
  cases herror : v.error? f.op body with
  | some e => exact (Visit.answer?_of_error herror).symm
  | none =>
    obtain ⟨a, ha⟩ := Option.isSome_iff_exists.1 (Visit.isSome_answer? hpasses herror)
    rw [ha]
    rfl

/-- A query for a row answers with the key of the row. -/
theorem answer?_findRow (h : Scans f body env visits) (hv : v ∈ visits)
    (hpasses : v.passes body = true) (hop : f.op = .findRow) :
    ∃ key, f.table.table.rowKey? v.row = some key ∧ v.answer? f.op body = some key := by
  have hrow : v.row < f.table.table.rowCount := by
    have hmem := List.mem_map_of_mem (f := Visit.row) hv
    rw [h.rows, List.mem_range] at hmem
    exact Nat.lt_of_lt_of_le hmem h.length_le
  obtain ⟨key, hkey⟩ := Option.isSome_iff_exists.1 (Table.isSome_rowKey? hrow)
  have hframe : (v.afterTest body).frames[0]? = some { f with row := v.row, aborted := false } := by
    rw [(h.running_of_passes hv hpasses).2]
    rfl
  refine ⟨key, hkey, ?_⟩
  rw [Visit.answer?, if_pos hpasses, hop, answering, Action.value?, run_rowKey hframe hkey]

end Scans

/-- A query over a table that was found, with room for its frame, scans this table in its frame. -/
theorem run_of_room {op : Operator} (hop : op ≠ .doForThisRow) {target : Action Installed}
    {env s : Environment} {t : Installed} (htarget : target.run env = .ok t s)
    (hroom : s.frames.length < s.config.maxQueryDepth) (x : String) (key : Option (Action Value))
    (body : Body) :
    let scanning :=
      inFrame ⟨op, x, t, 0, false⟩ (scan op body (List.range t.table.rowCount) .false)
    (run op x target key body).run env = scanning.run s ∧
      (run op x target key body).trace env = target.trace env ++ (scanning.trace s).tail := by
  have hstart : startRow op t.table key = .done 0 := by
    cases op with
    | doForThisRow => exact absurd rfl hop
    | rowExists | findRow | doForRow | doForAllRows => rfl
  have hvisits : visits op t.table 0 body = scan op body (List.range t.table.rowCount) .false := by
    cases op with
    | doForThisRow => exact absurd rfl hop
    | rowExists | findRow | doForRow | doForAllRows => rfl
  rw [run, Action.run_bind_of_ok htarget, Action.trace_bind, htarget]
  dsimp only
  rw [Action.environment_bind, Action.run_read, Action.trace, if_neg (by omega), hstart,
    Action.done_bind, hvisits]
  exact ⟨rfl, rfl⟩

/-- What such a query comes to is told by the visits of its scan. -/
theorem run_of_scanned {op : Operator} (hop : op ≠ .doForThisRow) {target : Action Installed}
    {env s : Environment} {t : Installed} (htarget : target.run env = .ok t s)
    (hroom : s.frames.length < s.config.maxQueryDepth) (x : String) (key : Option (Action Value))
    {body : Body} {visits : List Visit}
    (h : Scanned op body (s.pushFrame ⟨op, x, t, 0, false⟩) (List.range t.table.rowCount) visits) :
    let query := run op x target key body
    let pushed := s.pushFrame ⟨op, x, t, 0, false⟩
    query.final env = (reached op body pushed visits).popFrame ∧
      query.trace env = target.trace env ++ pushed :: visits.flatMap (Visit.trace op body) ++
        [query.final env] ∧
      query.run env =
        match visits.findSome? (Visit.error? op body) with
        | some e => .error e (query.final env)
        | none =>
          .ok ((visits.filterMap (Visit.answer? op body)).getLastD .false) (query.final env) := by
  intro query pushed
  obtain ⟨hrun, htrace⟩ := run_of_room hop htarget hroom x key body
  have hfinal : query.final env = (reached op body pushed visits).popFrame := by
    rw [Action.final, Eval.final, hrun, ← h.final_scan .false, ← final_inFrame]
    rfl
  refine ⟨hfinal, ?_, ?_⟩
  · rw [htrace, inFrame, Action.trace, List.tail_cons, Action.trace_ending, h.trace_scan,
      h.final_scan, ← hfinal, List.append_assoc]
  · rw [hfinal, hrun, inFrame, Action.run_change, Action.run_ending, h.run_scan]
    cases visits.findSome? (Visit.error? op body) <;> rfl

end Frame

end Query

/-- A query that scans its table tests the first rows, in order and each once. It evaluates the
action, if its operator does at all, right after a test that was true and neither halted evaluation
nor told the query to stop. Rows are left only behind a visit that failed, that answered a query for
one row, or after which the query was to stop. The value is the last answer, or `FALSE` if there is
none, and the trace of the query consists of those of its visits, so nothing else is evaluated. -/
theorem eval_query_scans {op : Operator} (hop : op ≠ .doForThisRow) {target : Target}
    {env s : Environment} {t : Installed} (htarget : (Expr.evalTarget op target).run env = .ok t s)
    (hroom : s.frames.length < s.config.maxQueryDepth) (x : String) (key : Option Expr)
    (test : Expr) (action : Option Expr) :
    let query := (Expr.query op x target key test action).eval
    let f : Frame := ⟨op, x, t, 0, false⟩
    let body := Query.bodyOf test action
    ∃ visits, Query.Scans f body s visits ∧
      query.trace env = (Expr.evalTarget op target).trace env ++
        s.pushFrame f :: visits.flatMap (Query.Visit.trace op body) ++ [query.final env] ∧
      query.final env = (Query.reached op body (s.pushFrame f) visits).popFrame ∧
      query.error? env = visits.findSome? (Query.Visit.error? op body) ∧
      (query.error? env = none → query.value? env =
        some ((visits.filterMap (Query.Visit.answer? op body)).getLastD .false)) ∧
      (∀ v ∈ visits, v.passes body = true → (v.afterTest body).halted = false ∧
        (v.afterTest body).frames = { f with row := v.row } :: s.frames ∧
        (op ≠ .doForAllRows → visits.getLast? = some v) ∧
        (op = .rowExists → query.value? env = some (.boolean true)) ∧
        (op = .findRow →
          ∃ key, t.table.rowKey? v.row = some key ∧ query.value? env = some key) ∧
        (op = .doForRow → query.value? env = body.action.value? (v.afterTest body)) ∧
        (op = .doForAllRows → v.answer? op body = body.action.value? (v.afterTest body))) ∧
      ((∀ v ∈ visits, v.passes body = false) → query.error? env = none →
        query.value? env = some .false) := by
  intro query f body
  obtain ⟨visits, hscanned⟩ := Query.exists_scanned op body (List.range t.table.rowCount)
    (s.pushFrame f)
  have hscans : Query.Scans f body s visits := Query.scans_of_scanned hscanned
    (disciplined_eval [] test) (Query.disciplined_action test action)
  have hquery : query = Query.run op x (Expr.evalTarget op target) (Expr.evalOption key) body := by
    rw [← Expr.eval]
  obtain ⟨hfinal, htrace, hrun⟩ := Query.run_of_scanned hop htarget hroom x (Expr.evalOption key)
    hscanned
  rw [← hquery] at hfinal htrace hrun
  have herror : query.error? env = visits.findSome? (Query.Visit.error? op body) := by
    rw [Action.error?, hrun]
    cases visits.findSome? (Query.Visit.error? op body) <;> rfl
  have hvalue : query.value? env = match visits.findSome? (Query.Visit.error? op body) with
      | some _ => none
      | none => some ((visits.filterMap (Query.Visit.answer? op body)).getLastD .false) := by
    rw [Action.value?, hrun]
    cases visits.findSome? (Query.Visit.error? op body) <;> rfl
  refine ⟨visits, hscans, htrace, hfinal, herror, fun hnone => ?_, fun v hv hpasses => ?_,
    fun hfails hnone => ?_⟩
  · rw [hvalue, ← herror, hnone]
  · obtain ⟨hhalted, hframes⟩ := hscans.running_of_passes hv hpasses
    have hanswer : op ≠ .doForAllRows → query.value? env = v.answer? op body := fun hone =>
      hvalue.trans (hscans.value_of_passes hv hpasses hone)
    have hdefined : v.answer? op body =
        (Query.answering op body.action).value? (v.afterTest body) := if_pos hpasses
    refine ⟨hhalted, hframes, fun hone => hscans.getLast?_of_ends hv (.answers hpasses hone),
      fun hexists => ?_, fun hfind => ?_, fun hrow => ?_, fun hall => ?_⟩
    · rw [hanswer (by simp [hexists]), hdefined, hexists]
      rfl
    · obtain ⟨key, hkey, hfound⟩ := hscans.answer?_findRow hv hpasses hfind
      exact ⟨key, hkey, (hanswer (by simp [hfind])).trans hfound⟩
    · rw [hanswer (by simp [hrow]), hdefined, hrow]
      rfl
    · rw [hdefined, hall]
      rfl
  · have hanswers : visits.filterMap (Query.Visit.answer? op body) = [] :=
      List.filterMap_eq_nil_iff.2 fun v hv => Query.Visit.answer?_eq_none (hfails v hv)
    rw [hvalue, ← herror, hnone, hanswers]
    rfl

/-- A query over four rows whose action prints the keys greater than one and breaks at the third
row: the fourth is not visited. -/
theorem eval_query_scans_up_to_break :
    let env := (Session.run .default [.build "(deftable accounts (id) (1) (2) (3) (4))"]).env
    let test := Expr.call .gt [.rowKey 0, .const (.integer 1)]
    let action := Expr.call .progn [.call .printout [.const (.symbol "t"), .rowKey 0],
      .call .or [.call .lt [.rowKey 0, .const (.integer 3)], .call .break []]]
    ∃ t, (env.catalog.find "accounts").toOption = some t ∧
      (Expr.evalTarget .doForAllRows (.known t)).run env = .ok t env ∧
      env.frames.length < env.config.maxQueryDepth ∧
        let query := (Expr.query .doForAllRows "a" (.known t) none test (some action)).eval
        let body := Query.bodyOf test (some action)
        (query.final env).output = "23" ∧
          ∃ visits, Query.Scans ⟨.doForAllRows, "a", t, 0, false⟩ body env visits ∧
            query.error? env = visits.findSome? (Query.Visit.error? .doForAllRows body) ∧
            query.value? env = some
              ((visits.filterMap (Query.Visit.answer? .doForAllRows body)).getLastD .false) := by
  intro env test action
  obtain ⟨t, ht, hp⟩ := (Option.any_eq_true (x := (env.catalog.find "accounts").toOption)
    (p := fun t : Installed => decide (
      (env.catalog.find t.table.qualifiedName).toOption = some t ∧
      env.frames.length < env.config.maxQueryDepth ∧
        let query := (Expr.query .doForAllRows "a" (.known t) none test (some action)).eval
        (query.final env).output = "23" ∧ (query.error? env).isNone))).1 (by decide +kernel)
  obtain ⟨hfound, hroom, houtput, hok⟩ := of_decide_eq_true hp
  have hfind : env.catalog.find t.table.qualifiedName = .ok t := by
    cases hfind : env.catalog.find t.table.qualifiedName with
    | error e =>
      rw [hfind] at hfound
      cases hfound
    | ok u =>
      rw [hfind] at hfound
      cases hfound
      rfl
  have htarget : (Expr.evalTarget .doForAllRows (.known t)).run env = .ok t env := by
    rw [Expr.evalTarget]
    exact Query.run_findKnown_of_find hfind
  obtain ⟨visits, hscans, _, _, herror, hvalue, _⟩ :=
    eval_query_scans (by decide) htarget hroom "a" none test (some action)
  exact ⟨t, ht, htarget, hroom, houtput, visits, hscans, herror,
    hvalue (Option.isNone_iff_eq_none.1 hok)⟩

end KeyedTables
