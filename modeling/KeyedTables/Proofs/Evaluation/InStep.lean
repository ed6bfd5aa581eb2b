import KeyedTables.Proofs.Evaluation.Course
import KeyedTables.Proofs.Table.Build

/-!
# Actions in step

Two actions are in step in an environment if they have the same effect there, a condition holds
again where they end, and both the environments on the way and the error they may end with are as
was promised. Single steps that keep the condition are in step with themselves, and so are
sequences, calls and scans whose parts are in step; a query is, if entering its frame leads to a
condition for the inside, and leaving it leads back.
-/
namespace KeyedTables

/-- What is promised of an evaluation. -/
structure Promise where
  /-- Holds of every environment on the way. -/
  moment : Environment → Prop
  /-- Holds of an error that it ends with, and of the environment in which this came up. -/
  error : Environment → Error → Prop

def Promise.Allows (P : Promise) (I : Environment → Prop) (e : Error) : Prop :=
  ∀ env, I env → P.error env e

/-- Nothing is promised of environments, nor of ordinary errors. -/
structure Promise.Lax (P : Promise) : Prop where
  moment (env : Environment) : P.moment env
  ordinary {env : Environment} {e : Error} : e.isOrdinary = true → P.error env e

/-- A condition on environments that single steps keep, and which is enough for a promise. -/
structure Steady (P : Promise) (I : Environment → Prop) : Prop where
  moment {env : Environment} : I env → P.moment env
  ordinary {e : Error} : e.isOrdinary = true → P.Allows I e
  /-- Variables, output and flags do not matter. -/
  write {env s : Environment} : I env → s.config = env.config → s.catalog = env.catalog →
    s.frames = env.frames → I s
  abort {env : Environment} : I env → I env.abortInnermost
  remove {env : Environment} {name : String} {c : Catalog} : I env →
    env.catalog.remove name = .ok c → I { env with catalog := c }

/-- Two actions with the same effect in an environment, after which a condition holds, and which
keep a promise. -/
structure InStep (P : Promise) (I : Environment → Prop) (α : Type) (m m' : Action α)
    (env : Environment) : Prop where
  run_eq : m.run env = m'.run env
  last : I (m.final env)
  moments : ∀ s ∈ m.trace env, P.moment s
  errors {e : Error} {env' : Environment} : m.run env = .error e env' →
    ∃ s ∈ m.trace env, P.error s e

namespace InStep
variable {P : Promise} {I J : Environment → Prop} {α β : Type} {env : Environment}

lemma done (hI : Steady P I) (h : I env) (a : α) : InStep P I α (.done a) (.done a) env where
  run_eq := rfl
  last := h
  moments s hs := by
    rw [List.mem_singleton.1 hs]
    exact hI.moment h
  errors hr := by cases hr

lemma fail (hI : Steady P I) (h : I env) {e : Error} (he : P.error env e) :
    InStep P I α (.fail e) (.fail e) env where
  run_eq := rfl
  last := h
  moments s hs := by
    rw [List.mem_singleton.1 hs]
    exact hI.moment h
  errors hr := by
    cases hr
    exact ⟨env, Action.self_mem_trace _ env, he⟩

lemma update (hI : Steady P I) {g : Environment → Environment} (h : I env) (hg : I (g env)) :
    InStep P I Unit (.update g) (.update g) env where
  run_eq := rfl
  last := hg
  moments s hs := by
    change s ∈ [env, g env] at hs
    obtain rfl | rfl := List.mem_pair.1 hs
    · exact hI.moment h
    · exact hI.moment hg
  errors hr := by cases hr

theorem congr_right {m m' m'' : Action α} (h : InStep P I α m m' env)
    (hm : m'.run env = m''.run env) : InStep P I α m m'' env :=
  ⟨h.run_eq.trans hm, h.last, h.moments, h.errors⟩

/-- A look at the environment changes nothing. -/
theorem look {f f' : Environment → Action β} (h : InStep P I β (f env) (f' env) env) :
    InStep P I β (.environment >>= f) (.environment >>= f') env :=
  ⟨h.run_eq, h.last, h.moments, h.errors⟩

theorem bind {m m' : Action α} {f f' : α → Action β} (hm : InStep P I α m m' env)
    (hf : ∀ a env', m.run env = .ok a env' → I env' → InStep P I β (f a) (f' a) env') :
    InStep P I β (m >>= f) (m' >>= f') env := by
  have hlast := hm.last
  have hrun := hm.run_eq
  cases h : m.run env with
  | error e env' =>
    rw [h] at hrun
    rw [Action.final_of_error h] at hlast
    refine ⟨?_, ?_, fun s hs => ?_, fun he => ?_⟩
    · rw [Action.run_bind_of_error h, Action.run_bind_of_error hrun.symm]
    · rw [Action.final_of_error (Action.run_bind_of_error h)]
      exact hlast
    · obtain hs | ⟨a, env'', ha, _⟩ := Action.mem_trace_bind.1 hs
      · exact hm.moments s hs
      · rw [h] at ha
        cases ha
    · rw [Action.run_bind_of_error h] at he
      cases he
      obtain ⟨s, hs, herror⟩ := hm.errors h
      exact ⟨s, Action.mem_trace_bind.2 (Or.inl hs), herror⟩
  | ok a env' =>
    rw [h] at hrun
    rw [Action.final_of_ok h] at hlast
    have hfa := hf a env' h hlast
    refine ⟨?_, ?_, fun s hs => ?_, fun he => ?_⟩
    · rw [Action.run_bind_of_ok h, Action.run_bind_of_ok hrun.symm]
      exact hfa.run_eq
    · rw [Action.final_bind_of_ok h]
      exact hfa.last
    · obtain hs | ⟨b, env'', hb, hs⟩ := Action.mem_trace_bind.1 hs
      · exact hm.moments s hs
      · rw [h] at hb
        cases hb
        exact hfa.moments s hs
    · rw [Action.run_bind_of_ok h] at he
      obtain ⟨s, hs, herror⟩ := hfa.errors he
      exact ⟨s, Action.mem_trace_bind.2 (Or.inr ⟨a, env', h, hs⟩), herror⟩

/-- Actions that yield a value at once and change nothing. -/
theorem of_run_eq_ok (hP : P.Lax) (h : I env) {m m' : Action α} {a : α}
    (hm : m.run env = .ok a env) (hm' : m'.run env = .ok a env) : InStep P I α m m' env where
  run_eq := hm.trans hm'.symm
  last := by
    rw [Action.final_of_ok hm]
    exact h
  moments s _ := hP.moment s
  errors hr := by
    rw [hm] at hr
    cases hr

/-- Actions that fail at once and change nothing. -/
theorem of_run_eq_error (hP : P.Lax) (h : I env) {m m' : Action α} {e : Error}
    (hm : m.run env = .error e env) (hm' : m'.run env = .error e env) (he : P.error env e) :
    InStep P I α m m' env where
  run_eq := hm.trans hm'.symm
  last := by
    rw [Action.final_of_error hm]
    exact h
  moments s _ := hP.moment s
  errors hr := by
    rw [hm] at hr
    cases hr
    exact ⟨env, Action.self_mem_trace m env, he⟩

theorem simulation (hI : Steady P I) : Simulation (P.Allows I) I (InStep P I) where
  ordinary := hI.ordinary
  done h a := done hI h a
  fail h _ he := fail hI h (he _ h)
  look := look
  bind := bind
  write h hc hcat hf := update hI h (hI.write h hc hcat hf)
  abort h := update hI h (hI.abort h)
  remove h hr := update hI h (hI.remove h hr)

abbrev Throughout (P : Promise) (I : Environment → Prop) (α : Type) (m m' : Action α) : Prop :=
  ∀ env, I env → InStep P I α m m' env

/-- Every call is in step if the operands are. -/
theorem congruence (hI : Steady P I) : Congruence (P.Allows I) (Throughout P I) :=
  (simulation hI).congruence

/-- Every reference is in step if nothing is promised of errors. -/
theorem totalCongruence (hI : Steady P I) (hP : ∀ env e, P.error env e) :
    TotalCongruence (Throughout P I) where
  toBaseCongruence :=
    { (congruence hI).toBaseCongruence with
      ordinary := fun _ => trivial
      fail := fun _ => (congruence hI).fail fun env _ => hP env _ }
  environment := fun env h => look (done hI h env)

/-- Inside a frame another condition is kept. -/
theorem inFrame (hI : Steady P I) (h : I env) {f : Frame} {m m' : Action α}
    (hm : InStep P J α m m' (env.pushFrame f)) (hpop : ∀ s, J s → I s.popFrame) :
    InStep P I α (Query.inFrame f m) (Query.inFrame f m') env where
  run_eq := by
    change (m.ending Environment.popFrame).run (env.pushFrame f) =
      (m'.ending Environment.popFrame).run (env.pushFrame f)
    rw [Action.run_ending, Action.run_ending, hm.run_eq]
  last := by
    rw [final_inFrame]
    exact hpop _ hm.last
  moments s hs := by
    obtain rfl | hs | rfl := mem_trace_inFrame.1 hs
    · exact hI.moment h
    · exact hm.moments s hs
    · exact hI.moment (hpop _ hm.last)
  errors {e env'} hr := by
    change (m.ending Environment.popFrame).run (env.pushFrame f) = .error e env' at hr
    rw [Action.run_ending] at hr
    cases hrun : m.run (env.pushFrame f) with
    | ok a env'' =>
      rw [hrun] at hr
      cases hr
    | error e' env'' =>
      rw [hrun] at hr
      cases hr
      obtain ⟨s, hs, herror⟩ := hm.errors hrun
      exact ⟨s, mem_trace_inFrame.2 (Or.inr (Or.inl hs)), herror⟩

/-- A query starts at a row of its table, unless it scans a table without rows. -/
theorem lt_rowCount_of_startRow {op : Operator} {t : Table} {key : Option (Action Value)}
    {start : Nat} {env env' : Environment} (h : (Query.startRow op t key).run env = .ok start env')
    (hrows : op = .doForThisRow ∨ 0 < t.rowCount) : start < t.rowCount := by
  cases op with
  | doForThisRow =>
    cases key with
    | none => cases h
    | some key =>
      change (key >>= _).run env = _ at h
      rw [Action.run_bind] at h
      cases hk : key.run env with
      | error e env'' =>
        rw [hk] at h
        cases h
      | ok k env'' =>
        rw [hk] at h
        dsimp only at h
        cases hr : t.rowOrdinal? k with
        | none =>
          rw [hr] at h
          cases h
        | some row =>
          rw [hr] at h
          cases h
          exact Table.lt_of_rowOrdinal? hr
  | rowExists | findRow | doForRow | doForAllRows =>
    cases h
    simpa using hrows

/-- A scan of a table without rows does nothing. -/
theorem visits_of_no_rows {op : Operator} (hop : op ≠ .doForThisRow) {t : Table}
    (h : t.rowCount = 0) (start : Nat) (body : Query.Body) :
    Query.visits op t start body = .done .false := by
  cases op with
  | doForThisRow => exact absurd rfl hop
  | rowExists | findRow | doForRow | doForAllRows =>
    simp only [Query.visits, h, List.range_zero, Query.scan, Action.pure_eq]

/-- A query whose parts are in step is in step with another one. The condition inside the frame may
depend on the table, and on that the frame is at a row. -/
theorem query (hI : Steady P I) {J : Installed → Environment → Prop} (hJ : ∀ t, Steady P (J t))
    {op : Operator} {rowVariable : String} {target target' : Action Installed}
    {key key' : Option (Action Value)} {body body' : Query.Body}
    (htarget : Throughout P I Installed target target')
    (hkey : Option.Rel (Throughout P I Value) key key')
    (hgiven : (op = .doForThisRow → key.isSome = true) ∨ Lenient (P.Allows I))
    (henter : ∀ {env t env₁ start env₂}, I env → target.run env = .ok t env₁ → I env₁ →
      (Query.startRow op t.table key).run env₁ = .ok start env₂ → I env₂ →
        P.moment (env₂.pushFrame ⟨op, rowVariable, t, start, false⟩) ∧
          (start < t.table.rowCount → J t (env₂.pushFrame ⟨op, rowVariable, t, start, false⟩)))
    (hvisit : ∀ t s row, row < t.table.rowCount → J t s → J t (s.visit row))
    (hpop : ∀ t s, J t s → I s.popFrame)
    (hcurrent : ∀ t, Throughout P (J t) Value (Query.rowKey 0) (Query.rowKey 0))
    (htest : ∀ t, Throughout P (J t) Value body.test body'.test)
    (haction : ∀ t, Throughout P (J t) Value body.action body'.action) :
    Throughout P I Value (Query.run op rowVariable target key body)
      (Query.run op rowVariable target' key' body') := by
  intro env h
  refine bind (htarget env h) fun t env₁ ht h₁ => look ?_
  split
  · exact fail hI h₁ (hI.ordinary rfl _ h₁)
  · refine bind ((congruence hI).startRow hkey hgiven t.table env₁ h₁) fun start env₂ hs h₂ => ?_
    obtain ⟨hmoment, hframe⟩ := henter h ht h₁ hs h₂
    by_cases hrows : op = .doForThisRow ∨ 0 < t.table.rowCount
    · have hrow := lt_rowCount_of_startRow hs hrows
      have hR := congruence (hJ t)
      refine inFrame hI h₂ (hR.visits (hcurrent t) (htest t) (haction t) op ?_ _ (hframe hrow))
        (hpop t)
      rintro row hrow' s hs
      refine update (hJ t) hs (hvisit t s row ?_ hs)
      obtain ⟨_, rfl⟩ | hlt := hrow'
      · exact hrow
      · exact hlt
    · have hzero : t.table.rowCount = 0 := by omega
      have hop : op ≠ .doForThisRow := fun heq => hrows (Or.inl heq)
      rw [visits_of_no_rows hop hzero, visits_of_no_rows hop hzero]
      refine inFrame hI h₂ (J := fun s => s = env₂.pushFrame ⟨op, rowVariable, t, start, false⟩)
        ⟨rfl, rfl, fun s hs => ?_, fun hr => by cases hr⟩ ?_
      · rw [List.mem_singleton.1 hs]
        exact hmoment
      · rintro _ rfl
        rw [Environment.popFrame_pushFrame]
        exact h₂

/-- The same if nothing is promised of errors, and the condition inside the frame does not depend on
the row it is at. -/
theorem totalQuery (hI : Steady P I) (hP : ∀ env e, P.error env e)
    {J : Installed → Environment → Prop} (hJ : ∀ t, Steady P (J t)) {op : Operator}
    {rowVariable : String} {target target' : Action Installed} {key key' : Option (Action Value)}
    {body body' : Query.Body} (htarget : Throughout P I Installed target target')
    (hkey : Option.Rel (Throughout P I Value) key key')
    (hpush : ∀ {env t env₁ start env₂}, I env → target.run env = .ok t env₁ → I env₁ →
      (Query.startRow op t.table key).run env₁ = .ok start env₂ → I env₂ →
        J t (env₂.pushFrame ⟨op, rowVariable, t, start, false⟩))
    (hvisit : ∀ t s row, J t s → J t (s.visit row)) (hpop : ∀ t s, J t s → I s.popFrame)
    (htest : ∀ t, Throughout P (J t) Value body.test body'.test)
    (haction : ∀ t, Throughout P (J t) Value body.action body'.action) :
    Throughout P I Value (Query.run op rowVariable target key body)
      (Query.run op rowVariable target' key' body') := by
  refine query hI hJ htarget hkey (Or.inr fun e _ env _ => hP env e)
    (fun h ht h₁ hs h₂ => ?_) (fun t s row _ => hvisit t s row) hpop
    (fun t => (totalCongruence (hJ t) hP).rowKey 0) htest haction
  have hframe := hpush h ht h₁ hs h₂
  exact ⟨(hJ _).moment hframe, fun _ => hframe⟩

end InStep

/-- A frame as far as its query cannot change it: operator, row variable and table. -/
def Frame.fixed (f : Frame) : Frame := { f with row := 0, aborted := false }

@[simp] theorem Frame.table_fixed (f : Frame) : f.fixed.table = f.table := rfl

namespace Environment
variable {env : Environment}

def queried (env : Environment) : List Frame := env.frames.map Frame.fixed

lemma queried_congr {s : Environment} (h : s.frames = env.frames) : s.queried = env.queried := by
  rw [queried, h, queried]

@[simp] theorem queried_abortInnermost (env : Environment) :
    env.abortInnermost.queried = env.queried := by
  unfold abortInnermost queried
  cases h : env.frames with
  | nil => simp [h]
  | cons f frames => rfl

@[simp] theorem queried_visit (env : Environment) (row : Nat) :
    (env.visit row).queried = env.queried := by
  unfold visit queried
  cases h : env.frames with
  | nil => simp [h]
  | cons f frames => rfl

end Environment

/-- A condition on the catalog and the queries in progress which the removal of tables keeps. -/
theorem Steady.of_congr {P : Promise} {I : Environment → Prop} (hP : ∀ env e, P.error env e)
    (hmoment : ∀ {env : Environment}, I env → P.moment env)
    (hcongr : ∀ {env s : Environment}, I env → s.catalog = env.catalog → s.queried = env.queried →
      I s)
    (hremove : ∀ {env : Environment} {name : String} {c : Catalog}, I env →
      env.catalog.remove name = .ok c → I { env with catalog := c }) :
    Steady P I where
  moment := hmoment
  ordinary _ := fun env _ => hP env _
  write h _ hc hf := hcongr h hc (Environment.queried_congr hf)
  abort h := hcongr h (by simp) (by simp)
  remove := hremove

end KeyedTables
