import KeyedTables.Proofs.Catalog.QualifiedNames
import KeyedTables.Proofs.Evaluation.Discipline
import KeyedTables.Proofs.Evaluation.InStep
import KeyedTables.Proofs.Expr.Grounded

/-!
# Tables and columns found late

What resolution finds out beforehand can be left to evaluation: a known table can be given by its
qualified name, and a stored ordinal can be looked up again. Wherever qualified names mean their
tables, this makes no difference, although tables may be removed while the expression is evaluated:
what is left in the catalog is what was there at first, and the frames in progress are over the
known tables.
-/
namespace KeyedTables

namespace Expr

mutual

/-- The expression with all tables and columns left to be found. -/
def deferred : Expr → Expr
  | .const v => .const v
  | .localVar x => .localVar x
  | .globalVar x => .globalVar x
  | .call function args => .call function (deferredAll args)
  | .rowKey depth => .rowKey depth
  | .column depth key _ => .column depth key none
  | .query op rowVariable target key test action =>
    .query op rowVariable (.named (deferredName target)) (deferredOption key) (deferred test)
      (deferredOption action)

def deferredAll : List Expr → List Expr
  | [] => []
  | e :: es => deferred e :: deferredAll es

def deferredName : Target → Expr
  | .known t => .const (.symbol t.table.qualifiedName)
  | .named e => deferred e

def deferredOption : Option Expr → Option Expr
  | none => none
  | some e => some (deferred e)

end

lemma deferredAll_eq_map (es : List Expr) : deferredAll es = es.map deferred := by
  induction es with
  | nil => rfl
  | cons e es ih => rw [deferredAll, ih, List.map_cons]

lemma shape_deferred (e : Expr) : e.deferred.shape = e.shape := by
  cases e with
  | const v => rw [deferred]
  | localVar x => rw [deferred]
  | globalVar x => rw [deferred]
  | call function args =>
    rw [deferred]
    rfl
  | rowKey depth => rw [deferred]
  | column depth key ordinal =>
    rw [deferred]
    rfl
  | query op rowVariable target key test action =>
    rw [deferred]
    rfl

end Expr

/-- The catalog is the one of resolution, but for tables that were removed, and the queries in
progress go over their known tables. -/
structure Foreseen (c : Catalog) (known : List (Option Table)) (env : Environment) : Prop where
  thinned : Catalog.Thinned c env.catalog
  tables : List.Forall₂ (fun k (q : Frame) => ∀ t, k = some t → q.table.table = t) known env.queried

namespace Foreseen
variable {c : Catalog} {known : List (Option Table)} {k : Option Table} {env s : Environment}

lemma congr (h : Foreseen c known env) (hc : s.catalog = env.catalog)
    (hq : s.queried = env.queried) : Foreseen c known s where
  thinned := by
    rw [hc]
    exact h.thinned
  tables := by
    rw [hq]
    exact h.tables

lemma steady (c : Catalog) (known : List (Option Table)) :
    Steady ⟨fun _ => True, fun _ _ => True⟩ (Foreseen c known) :=
  .of_congr (fun _ _ => trivial) (fun _ => trivial) (fun h hc hq => h.congr hc hq)
    fun h hr => ⟨h.thinned.trans (.remove hr), h.tables⟩

lemma congruence (c : Catalog) (known : List (Option Table)) :
    TotalCongruence (InStep.Throughout ⟨fun _ => True, fun _ _ => True⟩ (Foreseen c known)) :=
  InStep.totalCongruence (steady c known) fun _ _ => trivial

lemma visit (h : Foreseen c known env) (row : Nat) : Foreseen c known (env.visit row) :=
  h.congr (by simp) (by simp)

lemma pushFrame (h : Foreseen c known env) {f : Frame}
    (hf : ∀ t, k = some t → f.table.table = t) :
    Foreseen c (k :: known) (env.pushFrame f) where
  thinned := h.thinned.trans (.of_modules_eq rfl)
  tables := .cons hf h.tables

lemma popFrame (h : Foreseen c (k :: known) env) : Foreseen c known env.popFrame := by
  have htables := h.tables
  unfold Environment.popFrame
  cases hf : env.frames with
  | nil =>
    rw [Environment.queried, hf] at htables
    cases htables
  | cons f frames =>
    rw [Environment.queried, hf] at htables
    cases htables with
    | cons _ hrest => exact ⟨h.thinned.trans (.of_modules_eq rfl), hrest⟩

/-- A known table is the one of the frame at its depth. -/
theorem table_eq (h : Foreseen c known env) {depth : Nat} {t : Table}
    (ht : known[depth]? = some (some t)) :
    ∃ f, env.frames[depth]? = some f ∧ f.table.table = t := by
  obtain ⟨hlength, hall⟩ := List.forall₂_iff_get.1 h.tables
  obtain ⟨hlt, hget⟩ := List.getElem?_eq_some_iff.1 ht
  have hlt' : depth < env.frames.length := by
    rw [hlength, Environment.queried, List.length_map] at hlt
    exact hlt
  refine ⟨env.frames[depth], List.getElem?_eq_getElem hlt', ?_⟩
  have hq := hall depth hlt (by rwa [← hlength]) t hget
  simpa [Environment.queried] using hq

/-- Looking up the qualified name of a known table comes to the same as checking that the table is
installed still. -/
theorem run_findNamed (h : Foreseen c known env) {t : Installed} (ht : c.Holds t)
    (howner : Text.Prefixes t.table.module) (op : Operator) :
    (Query.findNamed op (.symbol t.table.qualifiedName)).run env = (Query.findKnown t).run env := by
  have hmodule : (env.catalog.module? t.table.module).isSome := by
    rw [h.thinned.modules]
    exact Catalog.isSome_module?_of_tableAt? ht
  have hfind := @Catalog.find_join env.catalog _ t.table.name howner hmodule
  have hlook : (Query.findNamed op (.symbol t.table.qualifiedName)).run env =
      (Action.ofExcept (env.catalog.find t.table.qualifiedName)).run env := rfl
  rw [hlook]
  cases hslot : env.catalog.tableAt? t.table.module t.table.name with
  | none =>
    rw [hslot] at hfind
    rw [Query.run_findKnown_of_error hfind, Table.qualifiedName, hfind]
    rfl
  | some u =>
    obtain rfl : t = u := by
      have hfirst := h.thinned.slots hslot
      rw [ht] at hfirst
      cases hfirst
      rfl
    rw [hslot] at hfind
    rw [Query.run_findKnown_of_find hfind, Table.qualifiedName, hfind]
    rfl

/-- Looking up a column again comes to the same as a stored ordinal. -/
theorem run_column (h : Foreseen c known env) {depth : Nat} {key : Atom} {ordinal : Option Nat}
    (hordinal : ∀ i, ordinal = some i →
      ∃ t, known[depth]? = some (some t) ∧ t.columnOrdinal? (.atom key) = some i) :
    (Query.column depth key none).run env = (Query.column depth key ordinal).run env := by
  cases ordinal with
  | none => rfl
  | some i =>
    obtain ⟨t, ht, hcol⟩ := hordinal i rfl
    obtain ⟨f, hf, rfl⟩ := h.table_eq ht
    have hsame : Query.columnOrdinal f key none = Query.columnOrdinal f key (some i) := by
      unfold Query.columnOrdinal
      rw [hcol]
    unfold Query.column
    rw [Action.run_bind_of_ok (Query.run_frame hf), Action.run_bind_of_ok (Query.run_frame hf),
      hsame]

end Foreseen

def Catalog.Prefixing (c : Catalog) : Prop := ∀ m ∈ c.modules, Text.Prefixes m.name

instance (c : Catalog) : Decidable c.Prefixing :=
  inferInstanceAs (Decidable (∀ m ∈ c.modules, Text.Prefixes m.name))

lemma Catalog.Prefixing.of_holds {c : Catalog} (h : c.Prefixing) {t : Installed}
    (ht : c.Holds t) : Text.Prefixes t.table.module := by
  obtain ⟨m, hm, _⟩ := Catalog.tableAt?_eq_some_iff.1 ht
  rw [← Catalog.name_of_module? hm]
  exact h m (Catalog.mem_of_module? hm)

/-- The evaluation of a grounded expression is in step with that of the deferred one. -/
theorem inStep_deferred {c : Catalog} (hc : c.Prefixing) {known : List (Option Table)} {e : Expr}
    (h : e.Grounded c known) :
    InStep.Throughout ⟨fun _ => True, fun _ _ => True⟩ (Foreseen c known) Value e.eval
      e.deferred.eval := by
  induction h with
  | const =>
    rw [Expr.deferred, Expr.eval]
    exact (Foreseen.congruence c _).done _
  | localVar =>
    rw [Expr.deferred, Expr.eval]
    exact (Foreseen.congruence c _).readLocal _
  | globalVar =>
    rw [Expr.deferred, Expr.eval]
    exact (Foreseen.congruence c _).readGlobal _
  | rowKey =>
    rw [Expr.deferred, Expr.eval]
    exact (Foreseen.congruence c _).rowKey _
  | column hordinal =>
    rw [Expr.deferred, Expr.eval, Expr.eval]
    intro env henv
    exact ((Foreseen.congruence c _).column _ _ _ env henv).congr_right
      (henv.run_column hordinal).symm
  | @call known function args _ ih =>
    have hI := Foreseen.steady c known
    rw [Expr.deferred, Expr.eval, Expr.eval, Expr.deferredAll_eq_map, Expr.operands_eq_map,
      Expr.operands_eq_map, List.map_map]
    refine (InStep.congruence hI).call_of_shape_eq ?_ (.of_forall (fun _ _ _ => trivial) _ _)
      fun _ => (InStep.congruence hI).removeTable
    rw [List.forall₂_map_left_iff, List.forall₂_map_right_iff]
    exact List.forall₂_same.2 fun a ha => ⟨(Expr.shape_deferred a).symm, ih a ha⟩
  | @query known op rowVariable target key test action hknown _ _ _ _ ihname ihkey ihtest
      ihaction =>
    have hI := Foreseen.steady c known
    have hR := Foreseen.congruence c known
    rw [Expr.deferred, Expr.eval, Expr.eval]
    refine InStep.totalQuery hI (fun _ _ => trivial)
      (fun _ => Foreseen.steady c (target.table? :: known)) ?_ ?_ ?_
      (fun _ _ row hs => hs.visit row) (fun _ _ hs => hs.popFrame) (fun _ => ihtest) fun _ => ?_
    · cases target with
      | known t =>
        have ht := hknown t rfl
        have hname : Expr.evalTarget op (.named (Expr.deferredName (.known t))) =
            Query.findNamed op (.symbol t.table.qualifiedName) := by
          rw [Expr.deferredName, Expr.evalTarget, Expr.eval, Action.pure_eq, Action.done_bind]
        intro env henv
        rw [hname, Expr.evalTarget]
        exact (hR.findKnown t env henv).congr_right
          (henv.run_findNamed ht (hc.of_holds ht) op).symm
      | named e =>
        rw [Expr.deferredName, Expr.evalTarget, Expr.evalTarget]
        exact hR.bind (ihname e rfl) fun v _ => hR.findNamed op v
    · cases key with
      | none => exact .none
      | some k => exact .some (ihkey k rfl)
    · intro env t env₁ start env₂ _ ht _ _ h₂
      exact h₂.pushFrame fun table htable => Query.table_of_evalTarget ht htable
    · cases action with
      | none => exact (Foreseen.congruence c _).done _
      | some a => exact ihaction a rfl

/-- If the names of all modules may stand in front of two colons, an expression that was resolved in
a session is evaluated, outside of queries, with the same outcome and effect whether tables and
columns were found beforehand or are found late, also when tables are removed on the way. -/
theorem eval_deferred_eq_eval (config : Config) (steps : List Step)
    (hprefixing : (Session.run config steps).env.catalog.Prefixing) {env : Environment}
    (hcatalog : env.catalog = (Session.run config steps).env.catalog) (hframes : env.frames = [])
    {f : Form} {e : Expr} (he : Expr.ofForm env.catalog [] f = .ok e) :
    e.deferred.eval.run env = e.eval.run env := by
  have hvalid : env.catalog.Valid := by
    rw [hcatalog]
    exact (Session.sound_run config steps).valid
  have hforeseen : Foreseen env.catalog [] env := by
    refine ⟨.refl _, ?_⟩
    rw [Environment.queried, hframes]
    exact .nil
  rw [← hcatalog] at hprefixing
  have hgrounded := Resolution.grounded_ofForm hvalid he
  exact (inStep_deferred hprefixing hgrounded env hforeseen).run_eq.symm

/-- A table is removed in front of a query that asks for it inside of another one. -/
theorem eval_deferred_eq_eval_after_removal :
    let env := (Session.run .default
      [.build "(deftable accounts (id balance) (1 10) (2 20))",
        .build "(deftable owners (account) (1))"]).env
    ∃ f e failure env', Form.readOne "(progn (undeftable owners) (do-for-all-rows (?a accounts)
        (do-for-this-row (?b accounts ?a) TRUE (eq ?a:balance ?b:balance))
        (find-row (?o owners) (eq ?o:account ?a))))" = .ok f ∧
      Expr.ofForm env.catalog [] f = .ok e ∧ env.catalog.Prefixing ∧ env.frames = [] ∧
        failure.message = "table MAIN::owners not found" ∧
          e.eval.run env = .error failure env' ∧ e.deferred.eval.run env = .error failure env' := by
  intro env
  obtain ⟨f, e, hf, he, hp⟩ := @Resolution.exists_of_resolvesTo env.catalog
    "(progn (undeftable owners) (do-for-all-rows (?a accounts)
        (do-for-this-row (?b accounts ?a) TRUE (eq ?a:balance ?b:balance))
        (find-row (?o owners) (eq ?o:account ?a))))"
    (fun e => decide (env.catalog.Prefixing ∧ env.frames = [] ∧
      (e.eval.error? env).map Error.message = some "table MAIN::owners not found"))
    (by decide +kernel)
  obtain ⟨hprefixing, hframes, hmessage⟩ := of_decide_eq_true hp
  obtain ⟨failure, hfailure, hmessage⟩ := Option.map_eq_some_iff.1 hmessage
  obtain ⟨env', hrun⟩ := Action.run_of_error? hfailure
  have hsame := eval_deferred_eq_eval .default _ hprefixing rfl hframes he
  exact ⟨f, e, failure, env', hf, he, hprefixing, hframes, hmessage, hrun, hsame.trans hrun⟩

end KeyedTables
