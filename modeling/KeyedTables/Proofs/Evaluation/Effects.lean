import KeyedTables.Proofs.Catalog.Contents
import KeyedTables.Proofs.Catalog.Slots
import KeyedTables.Proofs.Evaluation.Course
import KeyedTables.Proofs.Expr.Resolution
import KeyedTables.Proofs.Session.Catalog
import Mathlib.Data.List.Chain

/-!
# The effects of evaluation

Evaluation goes from one environment to the next by a few kinds of changes. Each of them leaves the
configuration, the modules with their imports, the current module and the names of the globals
alone, keeps all locals and the halt, appends to the output at most, and takes tables away only if
they are not busy; so do all of them together, whether evaluation succeeds or fails.
-/
namespace KeyedTables

section Chains
variable {r : Environment → Environment → Prop} {α β : Type}

/-- What one step after another keeps, if it holds at first, holds all the way. -/
theorem Action.induction_of_isChain {m : Action α} {env : Environment}
    (h : (m.trace env).IsChain r) {P : Environment → Prop}
    (hstep : ∀ {s s'}, r s s' → P s → P s') (hstart : P env) : ∀ s ∈ m.trace env, P s := by
  rw [m.trace_eq_cons env] at h ⊢
  exact h.induction P _ (fun _ _ hr hs => hstep hr hs) fun _ => hstart

/-- All changes that an action makes, wherever it starts, are of a kind. -/
def Action.ChangesBy (r : Environment → Environment → Prop) (m : Action α) : Prop :=
  ∀ env, (m.trace env).IsChain r

namespace Action.ChangesBy

lemma isChain_change_iff {g : Environment → Environment} {next : Action α} {env : Environment} :
    ((change g next).trace env).IsChain r ↔ r env (g env) ∧ (next.trace (g env)).IsChain r := by
  rw [trace, trace_eq_cons next, List.isChain_cons_cons]

lemma done (a : α) : ChangesBy r (.done a) := fun env => List.isChain_singleton env

lemma fail (e : Error) : ChangesBy r (.fail e : Action α) := fun env => List.isChain_singleton env

lemma look {f : Environment → Action α} (h : ∀ env, ((f env).trace env).IsChain r) :
    ChangesBy r (.environment >>= f) := h

lemma update {g : Environment → Environment} (h : ∀ env, r env (g env)) :
    ChangesBy r (.update g) := fun env => isChain_change_iff.2 ⟨h env, List.isChain_singleton _⟩

/-- What changes at once and then comes to a result. -/
theorem isChain_update_done {g : Environment → Environment} {env : Environment} (h : r env (g env))
    (a : α) : ((do .update g; pure a : Action α).trace env).IsChain r :=
  isChain_change_iff.2 ⟨h, List.isChain_singleton _⟩

lemma bind {m : Action α} {f : α → Action β} (hm : ChangesBy r m)
    (hf : ∀ a, m.Yields a → ChangesBy r (f a)) : ChangesBy r (m >>= f) := by
  intro env
  have hchain := hm env
  have hrest : ∀ a env', m.run env = .ok a env' → ChangesBy r (f a) := fun a env' h =>
    hf a ⟨env, env', h⟩
  rw [bind_eq]
  clear hm hf
  induction m generalizing env with
  | done a => exact hrest a env rfl env
  | fail e => exact hchain
  | read next ih => exact ih env env hchain hrest
  | change g next ih =>
    obtain ⟨hstep, hnext⟩ := isChain_change_iff.1 hchain
    exact isChain_change_iff.2 ⟨hstep, ih (g env) hnext hrest⟩

/-- A change at the end is one more. -/
theorem ending {g : Environment → Environment} {m : Action α} (hm : ChangesBy r m)
    (hg : ∀ env, r env (g env)) : ChangesBy r (m.ending g) := by
  intro env
  have hchain := hm env
  clear hm
  induction m generalizing env with
  | done a => exact isChain_change_iff.2 ⟨hg env, List.isChain_singleton _⟩
  | fail e => exact isChain_change_iff.2 ⟨hg env, List.isChain_singleton _⟩
  | read next ih => exact ih env env hchain
  | change h next ih =>
    obtain ⟨hstep, hnext⟩ := isChain_change_iff.1 hchain
    exact isChain_change_iff.2 ⟨hstep, ih (h env) hnext⟩

end Action.ChangesBy

end Chains

namespace Environment

/-- What a single step of evaluation may make of an environment. -/
inductive Change : Environment → Environment → Prop
  | bindLocal (env : Environment) (name : String) (v : Value) :
    Change env { env with locals := env.locals.set name v }
  | bindGlobal {env : Environment} {name : String} (h : (env.globals.get? name).isSome) (v : Value) :
    Change env { env with globals := env.globals.set name v }
  | print (env : Environment) (s : String) : Change env { env with output := env.output ++ s }
  | halt (env : Environment) : Change env { env with halted := true }
  | abort (env : Environment) : Change env env.abortInnermost
  | visit (env : Environment) (row : Nat) : Change env (env.visit row)
  | enter (env : Environment) (f : Frame) : Change env (env.pushFrame f)
  | leave (env : Environment) : Change env env.popFrame
  | remove {env : Environment} {name : String} {c : Catalog} (h : env.catalog.remove name = .ok c) :
    Change env { env with catalog := c }

end Environment

open KeyedTables.Action (ChangesBy)
open KeyedTables.Environment (Change)

lemma changesBy_totalCongruence : TotalCongruence fun _ m _ => ChangesBy Change m where
  ordinary _ := trivial
  done := ChangesBy.done
  fail _ := ChangesBy.fail _
  bind := ChangesBy.bind
  look hf := ChangesBy.look fun env => hf env.view env
  abort := by
    refine ChangesBy.look fun env => ?_
    split
    · exact ChangesBy.fail _ env
    · exact ChangesBy.isChain_update_done (.abort env) _
  emit s := ChangesBy.update fun env => .print env s
  halt := fun env => ChangesBy.isChain_update_done (.halt env) _
  assign {target} htarget v := by
    cases target with
    | localVar x => exact fun env => ChangesBy.isChain_update_done (.bindLocal env x v) _
    | globalVar x =>
      refine ChangesBy.look fun env => ?_
      cases h : env.globals.get? x with
      | none => exact ChangesBy.fail _ env
      | some _ => exact ChangesBy.isChain_update_done (.bindGlobal (h ▸ rfl) v) _
    | elseMark | other => cases htarget
  environment := ChangesBy.look fun env => ChangesBy.done env env

lemma changesBy_removeTable : Removing fun _ m _ => ChangesBy Change m := by
  intro name
  refine ChangesBy.look fun env => ?_
  cases h : env.catalog.remove name with
  | error e => exact ChangesBy.fail e env
  | ok c => exact ChangesBy.isChain_update_done (.remove h) _

lemma changesBy_congruence : EvaluationCongruence fun _ m _ => ChangesBy Change m where
  toBaseCongruence := changesBy_totalCongruence.toBaseCongruence
  rowKey := changesBy_totalCongruence.rowKey
  column := changesBy_totalCongruence.column
  query := by
    intro op rowVariable target key body htarget hkey htest haction
    have hR := changesBy_totalCongruence
    refine ChangesBy.bind htarget fun t _ => ChangesBy.look fun env => ?_
    split
    · exact ChangesBy.fail _ env
    · refine ChangesBy.bind (hR.startRow hkey (Or.inr fun _ _ => trivial) t.table)
        (fun start _ => fun env => ?_) env
      have hvisits : ChangesBy Change (Query.visits op t.table start body) :=
        @BaseCongruence.visits _ _ body.test body.test body.action body.action hR.toBaseCongruence
          (hR.rowKey 0) htest haction op t.table start
          fun row _ => ChangesBy.update fun env => .visit env row
      exact ChangesBy.isChain_change_iff.2 ⟨.enter env _, hvisits.ending .leave _⟩

/-- Evaluation goes from one environment to the next by changes of these kinds. -/
theorem changesBy_eval (e : Expr) : ChangesBy Change e.eval :=
  changesBy_congruence.eval e fun _ => changesBy_removeTable

namespace Environment

/-- What evaluation may have made of an environment. -/
structure Effect (env env' : Environment) : Prop where
  config : env'.config = env.config
  evaluationFailed : env'.evaluationFailed = env.evaluationFailed
  records : env'.catalog.records = env.catalog.records
  current : env'.catalog.current = env.catalog.current
  tables : env'.catalog.tables.Sublist env.catalog.tables
  globals : env'.globals.names = env.globals.names
  locals : env.locals.names ⊆ env'.locals.names
  halted : env.halted = true → env'.halted = true
  output : ∃ printed, env'.output = env.output ++ printed

variable {env env' env'' : Environment}

lemma Effect.trans (h : env.Effect env') (h' : env'.Effect env'') : env.Effect env'' where
  config := h'.config.trans h.config
  evaluationFailed := h'.evaluationFailed.trans h.evaluationFailed
  records := h'.records.trans h.records
  current := h'.current.trans h.current
  tables := h'.tables.trans h.tables
  globals := h'.globals.trans h.globals
  locals := List.Subset.trans h.locals h'.locals
  halted := h'.halted ∘ h.halted
  output := by
    obtain ⟨s, hs⟩ := h.output
    obtain ⟨s', hs'⟩ := h'.output
    exact ⟨s ++ s', by rw [hs', hs, String.append_assoc]⟩

instance : Trans Effect Effect Effect := ⟨Effect.trans⟩

lemma Effect.refl (env : Environment) : env.Effect env where
  config := rfl
  evaluationFailed := rfl
  records := rfl
  current := rfl
  tables := .refl _
  globals := rfl
  locals := fun _ h => h
  halted := id
  output := ⟨"", by simp⟩

namespace Change

lemma effect (h : Change env env') : env.Effect env' := by
  have hrefl := Effect.refl env
  cases h with
  | bindLocal name v =>
    exact { hrefl with locals := fun _ h => Dictionary.mem_names_set.2 (Or.inr h) }
  | bindGlobal h v => exact { hrefl with globals := Dictionary.names_set_of_isSome h v }
  | print s => exact { hrefl with output := ⟨s, rfl⟩ }
  | halt => exact { hrefl with halted := fun _ => rfl }
  | abort =>
    unfold abortInnermost
    split
    · exact hrefl
    · exact { hrefl with config := rfl }
  | visit row =>
    unfold Environment.visit
    split
    · exact hrefl
    · exact { hrefl with config := rfl }
  | enter f => exact { hrefl with config := rfl }
  | leave =>
    unfold popFrame
    split
    · exact hrefl
    · exact { hrefl with config := rfl }
  | remove h =>
    exact { hrefl with
      records := Catalog.records_remove h
      current := Catalog.current_remove h
      tables := Catalog.tables_remove_sublist h }

/-- Apart from removal, a change leaves all tables where they are. -/
theorem modules_cases (h : Change env env') :
    (env'.catalog.modules = env.catalog.modules ∧ env'.catalog.current = env.catalog.current) ∨
      ∃ name, env.catalog.remove name = .ok env'.catalog := by
  cases h with
  | bindLocal | bindGlobal | print | halt | enter => exact Or.inl ⟨rfl, rfl⟩
  | abort | visit => exact Or.inl (by simp)
  | leave =>
    unfold popFrame
    split
    · exact Or.inl ⟨rfl, rfl⟩
    · exact Or.inl ⟨rfl, rfl⟩
  | remove h => exact Or.inr ⟨_, h⟩

lemma valid (h : Change env env') (hvalid : env.catalog.Valid) : env'.catalog.Valid := by
  obtain ⟨hmodules, hcurrent⟩ | ⟨name, hr⟩ := h.modules_cases
  · exact hvalid.congr hmodules hcurrent
  · exact hvalid.remove hr

/-- A table that a change takes away is not busy. -/
theorem not_busy (h : Change env env') (hvalid : env.catalog.Valid) {t : Installed}
    (ht : t ∈ env.catalog.tables) (hlost : t ∉ env'.catalog.tables) : env.catalog.busy t = 0 := by
  obtain ⟨hmodules, _⟩ | ⟨name, hr⟩ := h.modules_cases
  · rw [Catalog.tables, hmodules] at hlost
    exact absurd ht hlost
  · by_contra hbusy
    have hholds := (hvalid.mem_tables_iff_holds.1 ht).remove hvalid (by omega) hr
    exact hlost ((hvalid.remove hr).mem_tables_iff_holds.2 hholds)

end Change

end Environment

section Evaluation
variable {env s : Environment} {e : Expr}

lemma effect_of_mem_trace (hs : s ∈ e.eval.trace env) : env.Effect s :=
  Action.induction_of_isChain (changesBy_eval e env) (P := env.Effect)
    (fun h hs => hs.trans h.effect) (.refl env) s hs

lemma valid_of_mem_trace (hvalid : env.catalog.Valid) (hs : s ∈ e.eval.trace env) :
    s.catalog.Valid :=
  Action.induction_of_isChain (changesBy_eval e env) (P := fun s => s.catalog.Valid)
    (fun h hs => h.valid hs) hvalid s hs

/-- A table that is lost was taken away in one step, when it was not busy. -/
theorem exists_step_of_lost (hvalid : env.catalog.Valid) {t : Installed}
    (ht : t ∈ env.catalog.tables) (hs : s ∈ e.eval.trace env) (hlost : t ∉ s.catalog.tables) :
    ∃ before s₁ s₂ after, e.eval.trace env = before ++ s₁ :: s₂ :: after ∧
      t ∈ s₁.catalog.tables ∧ t ∉ s₂.catalog.tables ∧ s₁.catalog.busy t = 0 := by
  have hchain := List.isChain_iff_forall_rel_of_append_cons_cons.1 (changesBy_eval e env)
  by_contra hnone
  refine hlost ?_
  have hkept : (e.eval.trace env).IsChain fun s₁ s₂ =>
      t ∈ s₁.catalog.tables → t ∈ s₂.catalog.tables := by
    refine List.isChain_iff_forall_rel_of_append_cons_cons.2 ?_
    intro s₁ s₂ before after htrace h₁
    by_contra h₂
    have hmem : s₁ ∈ e.eval.trace env := by simp [htrace]
    exact hnone ⟨before, s₁, s₂, after, htrace, h₁, h₂,
      (hchain htrace).not_busy (valid_of_mem_trace hvalid hmem) h₁ h₂⟩
  exact Action.induction_of_isChain hkept (P := fun s => t ∈ s.catalog.tables) id ht s hs

/-- What evaluation in an environment with a valid catalog makes of it, whatever it comes to: the
configuration, the flag of failed evaluations, the modules with their imports and the current module
are the same; tables are taken away at most, each when it was not busy; no global comes or goes, no
local goes; a halt is not taken back; and output is only added to. So tables that are busy all the
time stay. -/
theorem evaluation_effect (hvalid : env.catalog.Valid) (e : Expr) :
    env.Effect (e.eval.final env) ∧
      (∀ t ∈ env.catalog.tables, t ∉ (e.eval.final env).catalog.tables →
        ∃ before s s' after, e.eval.trace env = before ++ s :: s' :: after ∧
          t ∈ s.catalog.tables ∧ t ∉ s'.catalog.tables ∧ s.catalog.busy t = 0) ∧
      ∀ t ∈ env.catalog.tables, (∀ s ∈ e.eval.trace env, 0 < s.catalog.busy t) →
        t ∈ (e.eval.final env).catalog.tables := by
  have hfinal := Action.final_mem_trace e.eval env
  refine ⟨effect_of_mem_trace hfinal, fun t ht => exists_step_of_lost hvalid ht hfinal,
    fun t ht hbusy => ?_⟩
  by_contra hlost
  obtain ⟨before, s, s', after, htrace, _, _, hfree⟩ := exists_step_of_lost hvalid ht hfinal hlost
  have hpos := hbusy s (by simp [htrace])
  omega

/-- A table is removed, and then another one inside a query over it, which fails: what was printed
and bound before stays, and so does the table that is busy. -/
theorem evaluation_effect_of_failing_removal :
    let env := (Session.run .default
      [.build "(deftable accounts (id balance) (1 10) (2 20))",
        .build "(deftable owners (account) (1))", .build "(defglobal ?*sum* = 0)"]).env
    ∃ f e failure env', Form.readOne "(progn (printout t a) (bind ?x 1) (undeftable owners)
        (do-for-all-rows (?a accounts) (bind ?*sum* 1) (undeftable accounts)))" = .ok f ∧
      Expr.ofForm env.catalog [] f = .ok e ∧ env.catalog.Valid ∧
      e.eval.run env = .error failure env' ∧
        env'.output = "a" ∧ env'.catalog.tables.length = 1 ∧ env.catalog.tables.length = 2 ∧
          env.Effect env' := by
  intro env
  obtain ⟨f, e, hf, he, hp⟩ := @Resolution.exists_of_resolvesTo env.catalog
    "(progn (printout t a) (bind ?x 1) (undeftable owners)
        (do-for-all-rows (?a accounts) (bind ?*sum* 1) (undeftable accounts)))"
    (fun e => decide ((e.eval.error? env).isSome = true ∧ (e.eval.final env).output = "a" ∧
      (e.eval.final env).catalog.tables.length = 1 ∧ env.catalog.tables.length = 2))
    (by decide +kernel)
  obtain ⟨hfails, houtput, hafter, hbefore⟩ := of_decide_eq_true hp
  obtain ⟨failure, hfailure⟩ := Option.isSome_iff_exists.1 hfails
  obtain ⟨env', hrun⟩ := Action.run_of_error? hfailure
  have hvalid : env.catalog.Valid := (Session.sound_run _ _).valid
  have heffect := (evaluation_effect hvalid e).1
  rw [Action.final_of_error hrun] at heffect houtput hafter
  exact ⟨f, e, failure, env', hf, he, hvalid, hrun, houtput, hafter, hbefore, heffect⟩

end Evaluation

end KeyedTables
