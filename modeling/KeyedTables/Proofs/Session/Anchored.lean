import KeyedTables.Proofs.Catalog.QualifiedNames
import KeyedTables.Proofs.Evaluation.InStep
import KeyedTables.Proofs.Expr.Grounded
import KeyedTables.Proofs.Session.Pins

/-!
# Queries over installed tables

A query pins its table when its frame is entered, and a pinned table is not removed; so the tables
of the queries in progress stay in their slots. What a query finds is in its slot at that moment.
Between the two moments there is nothing but the evaluation of the key, if the operator takes one. A
key that removes the table is not noticed: the query goes on over a table that is no longer there.
-/
namespace KeyedTables

namespace Environment
variable {env : Environment}

lemma map_serial_queried (env : Environment) :
    env.queried.map (·.table.serial) = env.frames.map (·.table.serial) := by
  rw [queried, List.map_map]
  rfl

/-- A table that is queried is busy. -/
theorem Balanced.busy_pos {outside : List Nat} (h : env.Balanced outside) {q : Frame}
    (hq : q ∈ env.queried) : 0 < env.catalog.busy q.table := by
  have hmem : q.table.serial ∈ env.queried.map (·.table.serial) := List.mem_map.2 ⟨q, hq, rfl⟩
  rw [map_serial_queried] at hmem
  have hcount := List.count_pos_iff.2 hmem
  rw [h q.table, livePins]
  omega

end Environment

/-- The tables of queries in progress are in their slots. For queries with a key this is only said
on a condition on the row variable. -/
structure Anchored (keeps : String → Prop) (others : List Installed) (outside : List Nat)
    (env : Environment) : Prop where
  sound : env.catalog.Sound others
  balanced : env.Balanced outside
  holds {q : Frame} : q ∈ env.queried → (q.op = .doForThisRow → keeps q.rowVariable) →
    env.catalog.Holds q.table

namespace Anchored
variable {keeps : String → Prop} {others : List Installed} {outside : List Nat}
  {env s : Environment}

lemma congr (h : Anchored keeps others outside env) (hc : s.catalog = env.catalog)
    (hq : s.queried = env.queried) : Anchored keeps others outside s where
  sound := by
    rw [hc]
    exact h.sound
  balanced := by
    refine h.balanced.congr (by rw [hc]) ?_
    rw [← Environment.map_serial_queried, hq, Environment.map_serial_queried]
  holds hmem hkeeps := by
    rw [hc]
    rw [hq] at hmem
    exact h.holds hmem hkeeps

/-- A table that is removed is not one of a query in progress. -/
theorem remove (h : Anchored keeps others outside env) {name : String} {c : Catalog}
    (hr : env.catalog.remove name = .ok c) :
    Anchored keeps others outside { env with catalog := c } where
  sound := h.sound.remove hr
  balanced := h.balanced.congr (Catalog.pins_remove hr) rfl
  holds hmem hkeeps :=
    (h.holds hmem hkeeps).remove h.sound.valid (h.balanced.busy_pos hmem) hr

lemma steady (keeps : String → Prop) (others : List Installed) (outside : List Nat) :
    Steady ⟨Anchored keeps others outside, fun _ _ => True⟩ (Anchored keeps others outside) :=
  .of_congr (fun _ _ => trivial) (fun h => h) (fun h hc hq => h.congr hc hq) fun h hr => h.remove hr

lemma visit (h : Anchored keeps others outside env) (row : Nat) :
    Anchored keeps others outside (env.visit row) := h.congr (by simp) (by simp)

lemma pushFrame (h : Anchored keeps others outside env) {f : Frame}
    (hf : (f.op = .doForThisRow → keeps f.rowVariable) → env.catalog.Holds f.table) :
    Anchored keeps others outside (env.pushFrame f) where
  sound := h.sound.congr rfl rfl rfl
  balanced := h.balanced.pushFrame f
  holds hmem hkeeps := by
    obtain hmem | hmem := List.mem_cons.1 hmem
    · cases hmem
      exact hf hkeeps
    · exact h.holds hmem hkeeps

lemma popFrame (h : Anchored keeps others outside env) :
    Anchored keeps others outside env.popFrame := by
  have hbalanced := h.balanced.popFrame
  unfold Environment.popFrame at hbalanced ⊢
  cases hf : env.frames with
  | nil => exact h
  | cons f frames =>
    rw [hf] at hbalanced
    refine ⟨h.sound.congr rfl rfl rfl, hbalanced, fun {q} hmem hkeeps => ?_⟩
    have hmem' : q ∈ env.queried := by
      rw [Environment.queried, hf]
      exact List.mem_cons_of_mem _ hmem
    exact h.holds hmem' hkeeps

end Anchored

section Entering
variable {keeps : String → Prop} {others : List Installed} {outside : List Nat}
  {env env' : Environment} {op : Operator} {t : Installed}

/-- Until a query is entered nothing is removed, unless by its key. -/
theorem eqUpToPins_startRow {table : Table} {key : Option Expr} {start : Nat}
    (h : (Query.startRow op table (Expr.evalOption key)).run env = .ok start env')
    (hkey : op = .doForThisRow → ∀ k, key = some k → k.removes = false) :
    Catalog.EqUpToPins env.catalog env'.catalog := by
  cases op with
  | rowExists | findRow | doForRow | doForAllRows =>
    cases h
    rfl
  | doForThisRow =>
    cases key with
    | none => cases h
    | some k =>
      rw [Expr.evalOption] at h
      obtain ⟨v, env₁, hk, h⟩ := Action.run_bind_eq_ok h
      have hlast := (eqUpToPins_eval (hkey rfl k rfl) env).last
      rw [Action.final_of_ok hk] at hlast
      split at h
      · cases h
        exact hlast
      · cases h

/-- Throughout the evaluation of a grounded expression, queries go over tables in their slots. -/
theorem anchored_eval {c : Catalog} {known : List (Option Table)} {e : Expr}
    (h : e.Grounded c known) (hothers : ∀ t, c.Holds t → t ∈ others)
    (hkeys : ∀ x, keeps x → ∀ k, (x, k) ∈ e.keys → k.removes = false) :
    InStep.Throughout ⟨Anchored keeps others outside, fun _ _ => True⟩
      (Anchored keeps others outside) Value e.eval e.eval := by
  have hI := Anchored.steady keeps others outside
  have hP : ∀ (_ : Environment) (_ : Error), True := fun _ _ => trivial
  have hR := InStep.totalCongruence hI hP
  induction h with
  | const =>
    rw [Expr.eval]
    exact hR.done _
  | localVar =>
    rw [Expr.eval]
    exact hR.readLocal _
  | globalVar =>
    rw [Expr.eval]
    exact hR.readGlobal _
  | rowKey =>
    rw [Expr.eval]
    exact hR.rowKey _
  | column _ =>
    rw [Expr.eval]
    exact hR.column _ _ _
  | call _ ih =>
    rw [Expr.eval]
    refine hR.call_self (fun o ho => ?_) (.of_forall (fun _ => trivial) _ _)
      fun _ => (InStep.congruence hI).removeTable
    rw [Expr.operands_eq_map] at ho
    obtain ⟨a, ha, rfl⟩ := List.mem_map.1 ho
    exact ih a ha fun x hkeeps k hk =>
      hkeys x hkeeps k (Expr.keys_subset (Expr.parts_subset_call ha) hk)
  | @query known op rowVariable target key test action hknown _ _ _ _ ihname ihkey ihtest
      ihaction =>
    rw [Expr.eval]
    refine InStep.totalQuery hI hP (fun _ => hI) ?_ ?_ ?_
      (fun _ _ row hs => hs.visit row) (fun _ _ hs => hs.popFrame) (fun _ => ?_) fun _ => ?_
    · cases target with
      | known t =>
        rw [Expr.evalTarget]
        exact hR.findKnown t
      | named e =>
        rw [Expr.evalTarget]
        refine hR.bind (ihname e rfl fun x hkeeps k hk => ?_) fun v _ => hR.findNamed op v
        exact hkeys x hkeeps k (Expr.keys_subset Expr.parts_target_subset hk)
    · cases key with
      | none => exact .none
      | some k₀ =>
        exact .some (ihkey k₀ rfl fun x hkeeps k hk =>
          hkeys x hkeeps k (Expr.keys_subset Expr.parts_key_subset hk))
    · intro env t env₁ start env₂ _ ht h₁ hstart h₂
      refine h₂.pushFrame fun hkeeps => ?_
      have hfound := Query.holds_of_evalTarget h₁.sound ht fun u hu => hothers u (hknown u hu)
      have hsame := eqUpToPins_startRow hstart fun hop k hk => by
        cases hk
        exact hkeys rowVariable (hkeeps hop) k Expr.key_mem_keys
      rw [Catalog.Holds, Catalog.tableAt?_congr hsame.modules_eq]
      exact hfound
    · exact ihtest fun x hkeeps k hk =>
        hkeys x hkeeps k (Expr.keys_subset Expr.parts_test_subset hk)
    · cases action with
      | none => exact hR.done _
      | some a =>
        exact ihaction a rfl fun x hkeeps k hk =>
          hkeys x hkeeps k (Expr.keys_subset Expr.parts_action_subset hk)

end Entering

/-- Before an evaluation no query is in progress. -/
theorem Session.anchored {env : Environment} {config : Config} {steps : List Step}
    (hcatalog : env.catalog = (run config steps).env.catalog) (hframes : env.frames = [])
    (keeps : String → Prop) : Anchored keeps env.catalog.tables (run config steps).pins env := by
  have hsettled := settled_run config steps
  constructor
  · rw [hcatalog]
    exact (sound_run config steps).tables
  · refine hsettled.balanced.congr (by rw [hcatalog]) ?_
    rw [hframes, hsettled.frames]
  · intro q hmem
    rw [Environment.queried, hframes] at hmem
    cases hmem

/-- Whenever something is evaluated in a query, the tables of all queries in progress are those in
the catalog under their modules and names, provided that they were found without a key or that no
key for the same row variable removes a table. The tables of queries in progress cannot be removed,
and a known table that has been removed is reported as not found. -/
theorem queries_go_over_installed_tables (config : Config) (steps : List Step) {env : Environment}
    (hcatalog : env.catalog = (Session.run config steps).env.catalog) (hframes : env.frames = [])
    {f : Form} {e : Expr} (he : Expr.ofForm env.catalog [] f = .ok e) :
    ∀ s ∈ e.eval.trace env,
      (∀ q ∈ s.frames,
        (q.op = .doForThisRow → ∀ k, (q.rowVariable, k) ∈ e.keys → k.removes = false) →
          s.catalog.Holds q.table) ∧
      (∀ q ∈ s.frames, ∀ name, s.catalog.find name = .ok q.table →
        s.catalog.remove name = .error (s.catalog.inUse q.table)) ∧
      ∀ t ∈ env.catalog.tables, ¬ s.catalog.Holds t → ∀ op,
        (Expr.evalTarget op (.known t)).run s =
          .error (.tableNotFound t.table.qualifiedName) s := by
  intro s hs
  have hstart := Session.anchored hcatalog hframes fun x =>
    ∀ k, (x, k) ∈ e.keys → k.removes = false
  have hvalid := hstart.sound.valid
  have hgrounded := Resolution.grounded_ofForm hvalid he
  have hanchored := (anchored_eval hgrounded (fun t ht => hvalid.mem_tables_iff_holds.2 ht)
    (fun _ hkeys => hkeys) env hstart).moments s hs
  have hqueried : ∀ q ∈ s.frames, q.fixed ∈ s.queried := fun q hq => List.mem_map.2 ⟨q, hq, rfl⟩
  refine ⟨fun q hq hkeys => ?_, fun q hq name hfind => ?_, fun t ht hgone op => ?_⟩
  · rw [← Frame.table_fixed]
    exact hanchored.holds (hqueried q hq) hkeys
  · rw [Catalog.remove, hfind]
    exact if_pos (hanchored.balanced.busy_pos (hqueried q hq))
  · rw [Expr.evalTarget]
    exact Query.run_findKnown_of_ne hanchored.sound (List.mem_append_left _ ht) fun hfind =>
      hgone (hanchored.sound.valid.holds_of_find hfind)

/-- One table is removed, and then another one is queried twice at once. -/
theorem queried_table_stays_when_another_is_removed :
    let env := (Session.run .default
      [.build "(deftable accounts (id balance) (1 10) (2 20))",
        .build "(deftable owners (account) (1))"]).env
    ∃ f e, Form.readOne "(progn (undeftable owners) (do-for-this-row (?a accounts 2)
        (row-exists? (?b accounts) (= ?a:balance ?b:balance)) ?a:balance))" = .ok f ∧
      Expr.ofForm env.catalog [] f = .ok e ∧ e.removes = true ∧
        (∃ s ∈ e.eval.trace env, s.frames.length = 2 ∧ s.catalog.tables.length = 1) ∧
          ∀ s ∈ e.eval.trace env, ∀ q ∈ s.frames, s.catalog.Holds q.table := by
  intro env
  obtain ⟨f, e, hf, he, hp⟩ := @Resolution.exists_of_resolvesTo env.catalog
    "(progn (undeftable owners) (do-for-this-row (?a accounts 2)
        (row-exists? (?b accounts) (= ?a:balance ?b:balance)) ?a:balance))"
    (fun e => decide (e.removes = true ∧ (∀ p ∈ e.keys, p.2.removes = false) ∧
      ∃ s ∈ e.eval.trace env, s.frames.length = 2 ∧ s.catalog.tables.length = 1))
    (by decide +kernel)
  obtain ⟨hremoves, hkeys, hmoment⟩ := of_decide_eq_true hp
  have hframes : env.frames = [] := (Session.settled_run _ _).frames
  refine ⟨f, e, hf, he, hremoves, hmoment, fun s hs q hq => ?_⟩
  exact (queries_go_over_installed_tables .default _ rfl hframes he s hs).1 q hq
    fun _ k hk => hkeys (q.rowVariable, k) hk

/-- A key that removes the table of its query: the query goes over a table that is not in the
catalog. -/
theorem removed_table_is_queried :
    let env := (Session.run .default [.load "(deftable accounts (id name) (1 Al) (2 Bo))"]).env
    ∃ f e, Form.readOne "(do-for-this-row (?a accounts (if (undeftable accounts) then 2)) TRUE
        ?a:name)" = .ok f ∧ Expr.ofForm env.catalog [] f = .ok e ∧ env.frames = [] ∧
      (∃ s ∈ e.eval.trace env, ∃ q ∈ s.frames, ¬ s.catalog.Holds q.table) ∧
        ∃ env', e.eval.run env = .ok (.symbol "Bo") env' := by
  intro env
  obtain ⟨f, e, hf, he, hp⟩ := @Resolution.exists_of_resolvesTo env.catalog
    "(do-for-this-row (?a accounts (if (undeftable accounts) then 2)) TRUE
        ?a:name)"
    (fun e => decide ((∃ s ∈ e.eval.trace env, ∃ q ∈ s.frames, ¬ s.catalog.Holds q.table) ∧
      e.eval.value? env = some (.symbol "Bo"))) (by decide +kernel)
  obtain ⟨hmoment, hvalue⟩ := of_decide_eq_true hp
  exact ⟨f, e, hf, he, (Session.settled_run _ _).frames, hmoment, Action.run_of_value? hvalue⟩

end KeyedTables
