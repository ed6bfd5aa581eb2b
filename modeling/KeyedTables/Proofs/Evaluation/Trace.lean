import KeyedTables.Evaluation

/-!
# Runs and traces

How the run and the trace of an action come from those of its parts. The environment an action ends
in is the last one of its trace, and what an action in a row passes through is what the parts pass
through, each from where the one before it ended.
-/
namespace KeyedTables

namespace Eval
variable {α β : Type} {m : Eval α} {env env' : Environment}

theorem final_of_ok {a : α} (h : m env = .ok a env') : m.final env = env' := by
  simp only [final, h]

theorem final_of_error {e : Error} (h : m env = .error e env') : m.final env = env' := by
  simp only [final, h]

theorem bind_of_ok {f : α → Eval β} {a : α} (h : m env = .ok a env') :
    (m >>= f) env = f a env' := by
  change EStateM.bind m f env = f a env'
  simp only [EStateM.bind, h]

theorem bind_of_error {f : α → Eval β} {e : Error} (h : m env = .error e env') :
    (m >>= f) env = .error e env' := by
  change EStateM.bind m f env = .error e env'
  simp only [EStateM.bind, h]

end Eval

namespace Action
variable {α β : Type}

@[simp] theorem pure_eq (a : α) : (pure a : Action α) = .done a := rfl

theorem bind_eq (m : Action α) (f : α → Action β) : m >>= f = m.bind f := rfl

@[simp] theorem done_bind (a : α) (f : α → Action β) : done a >>= f = f a := rfl

@[simp] theorem fail_bind (e : Error) (f : α → Action β) : (fail e : Action α) >>= f = fail e := rfl

@[simp] theorem environment_bind (f : Environment → Action β) : environment >>= f = read f := rfl

@[simp] theorem update_bind (g : Environment → Environment) (f : Unit → Action β) :
    update g >>= f = change g (f ()) := rfl

@[simp] theorem run_done (a : α) (env : Environment) : (done a).run env = .ok a env := rfl

@[simp] theorem run_fail (e : Error) (env : Environment) :
    (fail e : Action α).run env = .error e env := rfl

@[simp] theorem run_read (next : Environment → Action α) (env : Environment) :
    (read next).run env = (next env).run env := rfl

@[simp] theorem run_change (g : Environment → Environment) (next : Action α) (env : Environment) :
    (change g next).run env = next.run (g env) := rfl

theorem final_of_ok {m : Action α} {env env' : Environment} {a : α} (h : m.run env = .ok a env') :
    m.final env = env' := Eval.final_of_ok h

theorem final_of_error {m : Action α} {env env' : Environment} {e : Error}
    (h : m.run env = .error e env') : m.final env = env' := Eval.final_of_error h

def value? (m : Action α) (env : Environment) : Option α :=
  match m.run env with
  | .ok a _ => some a
  | .error _ _ => none

def error? (m : Action α) (env : Environment) : Option Error :=
  match m.run env with
  | .ok _ _ => none
  | .error e _ => some e

/-- There is an environment in which an action succeeds with a value. -/
def Yields (m : Action α) (a : α) : Prop := ∃ env env', m.run env = .ok a env'

theorem run_of_value? {m : Action α} {env : Environment} {a : α} (h : m.value? env = some a) :
    ∃ env', m.run env = .ok a env' := by
  unfold value? at h
  split at h
  · rename_i env' hrun
    cases h
    exact ⟨env', hrun⟩
  · cases h

theorem run_of_error? {m : Action α} {env : Environment} {e : Error} (h : m.error? env = some e) :
    ∃ env', m.run env = .error e env' := by
  unfold error? at h
  split at h
  · cases h
  · rename_i env' hrun
    cases h
    exact ⟨env', hrun⟩

theorem run_bind (m : Action α) (f : α → Action β) (env : Environment) :
    (m >>= f).run env =
      match m.run env with
      | .ok a env' => (f a).run env'
      | .error e env' => .error e env' := by
  rw [bind_eq]
  induction m generalizing env with
  | done a => rfl
  | fail e => rfl
  | read next ih => exact ih env env
  | change g next ih => exact ih (g env)

theorem run_bind_of_ok {m : Action α} {f : α → Action β} {env env' : Environment} {a : α}
    (h : m.run env = .ok a env') : (m >>= f).run env = (f a).run env' := by
  rw [run_bind, h]

theorem run_bind_of_error {m : Action α} {f : α → Action β} {env env' : Environment} {e : Error}
    (h : m.run env = .error e env') : (m >>= f).run env = .error e env' := by
  rw [run_bind, h]

/-- What succeeds one after another succeeds at first, and then from where that ended. -/
theorem run_bind_eq_ok {m : Action α} {f : α → Action β} {env env' : Environment} {b : β}
    (h : (m >>= f).run env = .ok b env') :
    ∃ a env₁, m.run env = .ok a env₁ ∧ (f a).run env₁ = .ok b env' := by
  rw [run_bind] at h
  cases hm : m.run env with
  | ok a env₁ =>
    rw [hm] at h
    exact ⟨a, env₁, rfl, h⟩
  | error e env₁ =>
    rw [hm] at h
    cases h

theorem final_bind_of_ok {m : Action α} {f : α → Action β} {env env' : Environment} {a : α}
    (h : m.run env = .ok a env') : (m >>= f).final env = (f a).final env' := by
  unfold final Eval.final
  rw [run_bind_of_ok h]

theorem bind_bind {γ : Type} (m : Action α) (f : α → Action β) (g : β → Action γ) :
    (m >>= f) >>= g = m >>= fun a => f a >>= g := by
  simp only [bind_eq]
  induction m with
  | done a => rfl
  | fail e => rfl
  | read next ih => exact congrArg read (funext ih)
  | change h next ih => exact congrArg (change h) ih

/-- A trace begins where the action starts. -/
theorem trace_eq_cons (m : Action α) (env : Environment) :
    m.trace env = env :: (m.trace env).tail := by
  induction m generalizing env with
  | done a => rfl
  | fail e => rfl
  | read next ih => exact ih env env
  | change g next _ => rfl

/-- What an action passes through is what its parts pass through, one after the other. -/
theorem trace_bind (m : Action α) (f : α → Action β) (env : Environment) :
    (m >>= f).trace env =
      match m.run env with
      | .ok a env' => m.trace env ++ ((f a).trace env').tail
      | .error _ _ => m.trace env := by
  rw [bind_eq]
  induction m generalizing env with
  | done a => exact trace_eq_cons (f a) env
  | fail e => rfl
  | read next ih => exact ih env env
  | change g next ih =>
    change env :: (next.bind f).trace (g env) = _
    rw [ih, run_change, trace]
    cases next.run (g env) <;> rfl

theorem self_mem_trace (m : Action α) (env : Environment) : env ∈ m.trace env := by
  rw [trace_eq_cons]
  exact List.mem_cons_self

theorem final_mem_trace (m : Action α) (env : Environment) : m.final env ∈ m.trace env := by
  induction m generalizing env with
  | done a => exact List.mem_singleton.2 rfl
  | fail e => exact List.mem_singleton.2 rfl
  | read next ih => exact ih env env
  | change g next ih => exact List.mem_cons_of_mem _ (ih (g env))

theorem mem_trace_bind {m : Action α} {f : α → Action β} {env s : Environment} :
    s ∈ (m >>= f).trace env ↔
      s ∈ m.trace env ∨ ∃ a env', m.run env = .ok a env' ∧ s ∈ (f a).trace env' := by
  rw [trace_bind]
  cases h : m.run env with
  | error e env' => simp
  | ok a env' =>
    have hends : env' ∈ m.trace env := final_of_ok h ▸ final_mem_trace m env
    have hcons := trace_eq_cons (f a) env'
    constructor
    · intro hs
      rcases List.mem_append.1 hs with hs | hs
      · exact Or.inl hs
      · exact Or.inr ⟨a, env', rfl, List.mem_of_mem_tail hs⟩
    · rintro (hs | ⟨b, env'', hr, hs⟩)
      · exact List.mem_append_left _ hs
      · cases hr
        rw [hcons] at hs
        rcases List.mem_cons.1 hs with rfl | hs
        · exact List.mem_append_left _ hends
        · exact List.mem_append_right _ hs

theorem run_ending (g : Environment → Environment) (m : Action α) (env : Environment) :
    (m.ending g).run env =
      match m.run env with
      | .ok a env' => .ok a (g env')
      | .error e env' => .error e (g env') := by
  induction m generalizing env with
  | done a => rfl
  | fail e => rfl
  | read next ih => exact ih env env
  | change h next ih => exact ih (h env)

theorem final_ending (g : Environment → Environment) (m : Action α) (env : Environment) :
    (m.ending g).final env = g (m.final env) := by
  unfold final Eval.final
  rw [run_ending]
  cases m.run env with
  | ok a env' => rfl
  | error e env' => rfl

theorem trace_ending (g : Environment → Environment) (m : Action α) (env : Environment) :
    (m.ending g).trace env = m.trace env ++ [g (m.final env)] := by
  induction m generalizing env with
  | done a => rfl
  | fail e => rfl
  | read next ih => exact ih env env
  | change h next ih => exact congrArg (env :: ·) (ih (h env))

theorem mem_trace_ending {g : Environment → Environment} {m : Action α} {env s : Environment} :
    s ∈ (m.ending g).trace env ↔ s ∈ m.trace env ∨ s = g (m.final env) := by
  rw [trace_ending, List.mem_append, List.mem_singleton]

end Action

end KeyedTables
