import KeyedTables.Proofs.Evaluation.Discipline
import KeyedTables.Proofs.Session.Invariant
import Mathlib.Data.List.Perm.Basic

/-!
# Frames and pins in sessions

Between the steps of a session no query is in progress, and every table is as busy as it has pins
held from outside. During a step the same holds with the queries in progress counted in, because
evaluation is disciplined.
-/
namespace KeyedTables

namespace Session

/-- No query is in progress, and pins are those held. -/
structure Settled (s : Session) : Prop where
  frames : s.env.frames = []
  balanced : s.env.Balanced s.pins

lemma settled_start (config : Config) : (start config).Settled := ⟨rfl, fun _ => rfl⟩

lemma Settled.pin {s : Session} (h : s.Settled) (t : Installed) :
    Settled { s with env := s.env.pin t, held := t :: s.held } where
  frames := h.frames
  balanced u := by
    have hu := h.balanced u
    unfold Catalog.busy Environment.livePins pins at hu ⊢
    simp only [Environment.pin, Catalog.pin, List.map_cons, List.count_cons]
    omega

lemma Settled.release {s : Session} (h : s.Settled) {t : Installed} {position : Nat}
    (ht : s.held[position]? = some t) :
    Settled { s with env := s.env.unpin t, held := s.held.eraseIdx position } where
  frames := h.frames
  balanced u := by
    have hu := h.balanced u
    obtain ⟨hlt, hget⟩ := List.getElem?_eq_some_iff.1 ht
    have hperm := (List.getElem_cons_eraseIdx_perm hlt).map Installed.serial
    have hcount := hperm.count_eq u.serial
    rw [hget, List.map_cons, List.count_cons] at hcount
    unfold Catalog.busy Environment.livePins pins at hu ⊢
    simp only [Environment.unpin, Catalog.unpin, List.count_erase]
    omega

/-- Queries over and pins released: whatever is done in an environment without frames keeps pins and
frames as they are. -/
theorem settled_invariant : Invariant Settled where
  start := settled_start
  env taken held := by
    refine {
      begin := fun h => ⟨h.frames, h.balanced⟩
      failed := fun h => ⟨h.frames, h.balanced⟩
      setGlobal := fun name v h => ⟨h.frames, h.balanced⟩
      takeOutput := fun h => ⟨h.frames, h.balanced⟩
      eval := fun e h => ?_
      install := fun h _ hc => ⟨h.frames, h.balanced.congr (Catalog.pins_install hc) rfl⟩
      defineModule := fun h hc => ⟨h.frames, h.balanced.congr (Catalog.pins_defineModule hc) rfl⟩
      setCurrent := fun h hc => ⟨h.frames, h.balanced.congr (Catalog.pins_setCurrent hc) rfl⟩
      restore := fun h _ _ => ⟨h.frames, h.balanced.congr rfl rfl⟩ }
    rename_i env
    have he := Course.reached (disciplined_eval (held.map Installed.serial) e env)
    exact ⟨he.last.frames.eq_nil h.frames, (he.moment h.balanced).balanced⟩
  take h _ := ⟨h.frames, h.balanced⟩
  pin h _ := h.pin _
  release h ht := h.release ht

theorem settled_run (config : Config) (steps : List Step) : (run config steps).Settled :=
  settled_invariant.run config steps

end Session

/-- What a query does at its rows, for a test and an action given as expressions. -/
theorem disciplined_visits_eval (outside : List Nat) (op : Operator) (t : Table) (start : Nat)
    (test : Expr) (action : Option Expr) (env : Environment) :
    Disciplined Moved outside
      (Query.visits op t start ⟨test.eval, (Expr.evalOption action).getD (pure .false)⟩) env := by
  refine disciplined_visits (disciplined_eval outside test) ?_ op t start env
  cases action with
  | none => exact (disciplined_congruence outside).done _
  | some e =>
    rw [Expr.evalOption]
    exact disciplined_eval outside e

/-- Evaluation, failing or not, leaves the frames as they were, but may tell the innermost query to
stop, and leaves every table as busy as it was; all the while tables are as busy as they have live
pins, and queries are no deeper than allowed. A query leaves the frames below its own untouched. So
between the steps of a session no query is in progress, and only the pins held from outside are
live. -/
theorem evaluation_restores_frames_and_pins {outside : List Nat} {env : Environment}
    (h : env.Balanced outside) :
    (∀ e : Expr, Marked env.frames (e.eval.final env).frames ∧
      (∀ t, (e.eval.final env).catalog.busy t = env.catalog.busy t) ∧
        ∀ s ∈ e.eval.trace env, s.Balanced outside ∧
          (env.frames.length ≤ env.config.maxQueryDepth →
            s.frames.length ≤ env.config.maxQueryDepth)) ∧
    (∀ f below, env.frames = f :: below → ∀ op t start test action,
      ∀ s ∈ (Query.visits op t start
          ⟨Expr.eval test, (Expr.evalOption action).getD (pure .false)⟩).trace env,
        ∃ above own, s.frames = above ++ own :: below ∧ own.op = f.op ∧
          own.rowVariable = f.rowVariable ∧ own.table = f.table) ∧
    ∀ config steps, (Session.run config steps).env.frames = [] ∧
      ∀ t, (Session.run config steps).env.catalog.busy t =
        (Session.run config steps).pins.count t.serial := by
  refine ⟨fun e => ?_, fun f below hf op t start test action s hs => ?_, fun config steps => ?_⟩
  · have he := disciplined_eval outside e env
    have hlast := (Course.reached he).moment h
    refine ⟨he.last.frames, fun t => ?_, fun s hs => ?_⟩
    · rw [hlast.balanced t, h t, Environment.livePins, Environment.livePins,
        Marked.frameRelation.serials he.last.frames]
    · have hs := he.moments s hs h
      exact ⟨hs.balanced, hs.depth⟩
  · have hvisits := disciplined_visits_eval outside op t start test action env
    obtain ⟨above, lower, hframes, hmoved⟩ := (hvisits.moments s hs h).below
    rw [hf] at hmoved
    obtain ⟨own, rfl, hop, hvar, htable⟩ := hmoved.of_cons
    exact ⟨above, own, hframes, hop, hvar, htable⟩
  · have hs := Session.settled_run config steps
    refine ⟨hs.frames, fun t => ?_⟩
    rw [hs.balanced t, Environment.livePins, hs.frames]
    exact Nat.zero_add _

/-- A table pinned from outside, and a query over it inside a query over it that is broken off. -/
theorem balanced_during_nested_queries :
    let s := Session.run .default [.build "(deftable t (k) (1) (2))", .take 0, .pin 0]
    let t := Target.named (.const (.symbol "t"))
    let e := Expr.query .doForAllRows "r" t none (.const (.boolean true))
      (some (.query .rowExists "s" t none (.call .break []) none))
    s.pins = [0] ∧ s.env.Balanced s.pins ∧ 12 ≤ (e.eval.trace s.env).length ∧
      ∀ s' ∈ e.eval.trace s.env, s'.Balanced s.pins ∧
        (s.env.frames.length ≤ s.env.config.maxQueryDepth →
          s'.frames.length ≤ s.env.config.maxQueryDepth) := by
  intro s t e
  have hb : s.env.Balanced s.pins := (Session.settled_run _ _).balanced
  exact ⟨by decide +kernel, hb, by decide +kernel,
    ((evaluation_restores_frames_and_pins hb).1 e).2.2⟩

end KeyedTables
