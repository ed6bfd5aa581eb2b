import KeyedTables.Proofs.Evaluation.Congruence
import KeyedTables.Proofs.Evaluation.Trace

/-!
# The course of an evaluation

How the environment an evaluation starts in is related to the one it ends in, and to those it passes
through. Two such relations that compose, and that hold of the single changes, hold of every call
and every reference; what is left to show for an expression is how queries begin and end.
-/
namespace KeyedTables

/-- An environment as it may come out of a single step. -/
structure Reached (last moment : Environment → Environment → Prop) (env env' : Environment) :
    Prop where
  last : last env env'
  moment : moment env env'

/-- Relations to the environments an action ends in and passes through, which hold of single changes
and compose, the removal of tables apart. -/
structure BaseCourse (last moment : Environment → Environment → Prop) : Prop where
  refl (env : Environment) : Reached last moment env env
  last_trans {a b c : Environment} : last a b → last b c → last a c
  moment_trans {a b c : Environment} : Reached last moment a b → moment b c → moment a c
  /-- Variables, output and flags do not matter. -/
  write {env env' : Environment} : env'.config = env.config → env'.catalog = env.catalog →
    env'.frames = env.frames → Reached last moment env env'
  abort (env : Environment) : Reached last moment env env.abortInnermost

structure Course (last moment : Environment → Environment → Prop) : Prop
    extends BaseCourse last moment where
  remove {env : Environment} {name : String} {c : Catalog} : env.catalog.remove name = .ok c →
    Reached last moment env { env with catalog := c }

/-- An action in an environment, with the relations to where it ends and what it passes through. -/
structure Along (last moment : Environment → Environment → Prop) {α : Type} (m : Action α)
    (env : Environment) : Prop where
  last : last env (m.final env)
  moments : ∀ s ∈ m.trace env, moment env s

section
variable {last moment : Environment → Environment → Prop} {α β : Type} {env : Environment}

theorem Course.reached {m : Action α} (h : Along last moment m env) :
    Reached last moment env (m.final env) :=
  ⟨h.last, h.moments _ (Action.final_mem_trace m env)⟩

/-- A look at the environment changes nothing. -/
theorem Course.look {f : Environment → Action β} (h : Along last moment (f env) env) :
    Along last moment (.environment >>= f) env := ⟨h.last, h.moments⟩

namespace BaseCourse

lemma done (hC : BaseCourse last moment) (a : α) (env : Environment) :
    Along last moment (.done a) env where
  last := (hC.refl env).last
  moments s hs := by
    rw [List.mem_singleton.1 hs]
    exact (hC.refl env).moment

theorem fail (hC : BaseCourse last moment) (e : Error) (env : Environment) :
    Along last moment (.fail e : Action α) env where
  last := (hC.refl env).last
  moments s hs := by
    rw [List.mem_singleton.1 hs]
    exact (hC.refl env).moment

lemma update (hC : BaseCourse last moment) {g : Environment → Environment}
    (hg : Reached last moment env (g env)) : Along last moment (.update g) env where
  last := hg.last
  moments s hs := by
    change s ∈ [env, g env] at hs
    obtain rfl | rfl := List.mem_pair.1 hs
    · exact (hC.refl s).moment
    · exact hg.moment

theorem bind (hC : BaseCourse last moment) {m : Action α} {f : α → Action β}
    (hm : Along last moment m env)
    (hf : ∀ a env', m.run env = .ok a env' → Reached last moment env env' →
      Along last moment (f a) env') :
    Along last moment (m >>= f) env := by
  have hreached := Course.reached hm
  cases h : m.run env with
  | error e env' =>
    rw [Action.final_of_error h] at hreached
    constructor
    · rw [Action.final_of_error (Action.run_bind_of_error h)]
      exact hreached.last
    · intro s hs
      obtain hs | ⟨a, env'', ha, _⟩ := Action.mem_trace_bind.1 hs
      · exact hm.moments s hs
      · rw [h] at ha
        cases ha
  | ok a env' =>
    rw [Action.final_of_ok h] at hreached
    have hfa := hf a env' h hreached
    constructor
    · rw [Action.final_bind_of_ok h]
      exact hC.last_trans hreached.last hfa.last
    · intro s hs
      obtain hs | ⟨b, env'', hb, hs⟩ := Action.mem_trace_bind.1 hs
      · exact hm.moments s hs
      · rw [h] at hb
        cases hb
        exact hC.moment_trans hreached (hfa.moments s hs)

lemma simulation (hC : BaseCourse last moment) :
    BaseSimulation (fun _ => True) (fun _ => True) fun _ m _ env => Along last moment m env where
  ordinary _ := trivial
  done _ a := hC.done a _
  fail _ _ _ := hC.fail _ _
  look h := Course.look h
  bind hm hf := hC.bind hm fun a env' ha _ => hf a env' ha trivial
  write _ hc hcat hf := hC.update (hC.write hc hcat hf)
  abort _ := hC.update (hC.abort _)

/-- Every call and every reference keeps to the course if the operands do. -/
theorem congruence (hC : BaseCourse last moment) :
    TotalCongruence fun _ m _ => ∀ env, Along last moment m env := by
  have hR := hC.simulation.congruence
  simp only [true_implies] at hR
  exact ⟨hR, fun env => Course.look (hC.done env env)⟩

/-- What a query does at its rows keeps to the course if test and action do, and moves to rows. -/
theorem visits (hC : BaseCourse last moment) {body : Query.Body}
    (hvisit : ∀ env row, Reached last moment env (env.visit row))
    (htest : ∀ env, Along last moment body.test env)
    (haction : ∀ env, Along last moment body.action env) (op : Operator) (t : Table) (start : Nat)
    (env : Environment) : Along last moment (Query.visits op t start body) env := by
  have hR := hC.congruence
  exact @BaseCongruence.visits _ _ body.test body.test body.action body.action hR.toBaseCongruence
    (hR.rowKey 0) htest haction op t start (fun row _ env => hC.update (hvisit env row)) env

end BaseCourse

lemma Course.simulation (hC : Course last moment) :
    Simulation (fun _ => True) (fun _ => True) fun _ m _ env => Along last moment m env where
  toBaseSimulation := hC.toBaseCourse.simulation
  remove _ hr := hC.update (hC.remove hr)

/-- The removal of tables keeps to the course. -/
theorem Course.removing (hC : Course last moment) :
    Removing fun _ m _ => ∀ env, Along last moment m env := by
  have hR := hC.simulation.congruence
  simp only [true_implies] at hR
  exact hR.removeTable

end

theorem mem_trace_inFrame {α : Type} {f : Frame} {m : Action α} {env s : Environment} :
    s ∈ (Query.inFrame f m).trace env ↔
      s = env ∨ s ∈ m.trace (env.pushFrame f) ∨ s = (m.final (env.pushFrame f)).popFrame := by
  change s ∈ env :: (m.ending Environment.popFrame).trace (env.pushFrame f) ↔ _
  rw [List.mem_cons, Action.mem_trace_ending]

theorem final_inFrame {α : Type} (f : Frame) (m : Action α) (env : Environment) :
    (Query.inFrame f m).final env = (m.final (env.pushFrame f)).popFrame :=
  Action.final_ending Environment.popFrame m (env.pushFrame f)

end KeyedTables
