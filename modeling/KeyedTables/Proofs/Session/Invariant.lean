import KeyedTables.Proofs.Evaluation.Trace
import KeyedTables.Proofs.Table.Sized
import KeyedTables.Session

/-!
# Invariants of sessions

A property of environments that single changes keep is kept by everything that is done at the top
level: by loading, building and evaluating text, by removing tables and by restoring snapshots,
whether these succeed or fail. A property of sessions that is kept in this sense, and by taking
out, pinning and releasing tables, holds throughout every session.
-/
namespace KeyedTables

namespace Eval
variable {I : Environment → Prop} {α β : Type}

/-- Keeps a property of the environment, whether it succeeds or fails. -/
def Keeps (I : Environment → Prop) (m : Eval α) : Prop := ∀ env, I env → I (m.final env)

lemma final_bind_of_ok {m : Eval α} {f : α → Eval β} {env env' : Environment} {a : α}
    (h : m env = .ok a env') : (m >>= f).final env = (f a).final env' := by
  unfold final
  rw [bind_of_ok h]

lemma final_bind_of_error {m : Eval α} {f : α → Eval β} {env env' : Environment} {e : Error}
    (h : m env = .error e env') : (m >>= f).final env = env' := final_of_error (bind_of_error h)

lemma keeps_pure (a : α) : Keeps I (pure a) := fun _ h => h

lemma keeps_throw (e : Error) : Keeps I (throw e : Eval α) := fun _ h => h

lemma keeps_ofExcept (x : Except Error α) : Keeps I (ofExcept x) := by
  cases x with
  | ok a => exact keeps_pure a
  | error e => exact keeps_throw e

lemma Keeps.bind_of_ok {m : Eval α} {f : α → Eval β} (hm : Keeps I m)
    (hf : ∀ env env' a, m env = .ok a env' → I env' → I ((f a).final env')) : Keeps I (m >>= f) := by
  intro env h
  have hlast := hm env h
  cases hr : m env with
  | ok a env' =>
    rw [final_of_ok hr] at hlast
    rw [final_bind_of_ok hr]
    exact hf env env' a hr hlast
  | error e env' =>
    rw [final_of_error hr] at hlast
    rw [final_bind_of_error hr]
    exact hlast

theorem Keeps.bind {m : Eval α} {f : α → Eval β} (hm : Keeps I m) (hf : ∀ a, Keeps I (f a)) :
    Keeps I (m >>= f) :=
  hm.bind_of_ok fun _ env' a _ h => hf a env' h

/-- Evaluating a form keeps what the expression keeps that it stands for. -/
theorem keeps_evalForm {f : Form} (hf : ∀ env e, I env → Expr.ofForm env.catalog [] f = .ok e →
    I (e.eval.final env)) : Keeps I (Construct.evalForm f) := by
  intro env h
  cases he : Expr.ofForm env.catalog [] f with
  | error e =>
    have hr : Construct.resolve f env = .error e env := by simp only [Construct.resolve, he]
    rw [Construct.evalForm, final_bind_of_error hr]
    exact h
  | ok e =>
    have hr : Construct.resolve f env = .ok e env := by simp only [Construct.resolve, he]
    rw [Construct.evalForm, final_bind_of_ok hr]
    exact hf env e h he

end Eval

namespace Definition

def isEvaluated : Form → Bool
  | .globalVar _ | .immediate _ => true
  | .atom _ | .var _ | .list _ => false

/-- The cells of a definition that are left to evaluation, of all its rows in order. -/
def evaluatedCells (defaultModule keyColumn : String) (form : List Form) : List Form :=
  match headerOf defaultModule keyColumn form.tail with
  | .error _ => []
  | .ok (_, rows) => (rows.flatMap (·.list?.getD [])).filter isEvaluated

end Definition

/-- A property of environments that single changes at the top level keep. -/
structure Environment.Invariant (I : Environment → Prop) : Prop where
  begin {env : Environment} : I env → I env.begin
  failed {env : Environment} : I env → I { env with evaluationFailed := true }
  setGlobal {env : Environment} (name : String) (v : Value) :
    I env → I { env with globals := env.globals.set name v }
  takeOutput {env : Environment} : I env → I env.takeOutput.2
  eval {env : Environment} (e : Expr) : I env → I (e.eval.final env)
  install {env : Environment} {t : Table} {c : Catalog} {new : Installed} : I env → t.Sized →
    env.catalog.install t = .ok (c, new) → I { env with catalog := c }
  defineModule {env : Environment} {name : String} {imports : List String} {c : Catalog} : I env →
    env.catalog.defineModule name imports = .ok c → I { env with catalog := c }
  setCurrent {env : Environment} {name : String} {c : Catalog} : I env →
    env.catalog.setCurrent name = .ok c → I { env with catalog := c }
  restore {env : Environment} {expand : Snapshot.Expander} {bytes : List UInt8} {c : Catalog} :
    I env → env.catalog.firstBusy? = none → Snapshot.toCatalog expand bytes = .ok c →
      I { env with catalog := c.succeeding env.catalog }

namespace Environment.Invariant
variable {I : Environment → Prop}

open Eval

lemma cleanSlate (hI : Invariant I) : Keeps I Construct.cleanSlate := fun _ h => hI.begin h

lemma evalForm (hI : Invariant I) (f : Form) : Keeps I (Construct.evalForm f) :=
  keeps_evalForm fun _ e h _ => hI.eval e h

lemma evalCell (hI : Invariant I) (f : Form) : Keeps I (Construct.evalCell f) :=
  hI.cleanSlate.bind fun _ => hI.evalForm f

section Definition
variable {evaluate : Form → Eval Value}

open Definition (isEvaluated evaluatedCells)

lemma cell {f : Form} (he : isEvaluated f = true → Keeps I (evaluate f)) (table : String) :
    Keeps I (Definition.cell evaluate table f) := by
  cases f with
  | atom a => exact keeps_pure _
  | var v => exact keeps_throw _
  | globalVar g => exact he rfl
  | immediate xs => exact he rfl
  | list xs =>
    rw [Definition.cell]
    split
    · exact keeps_pure _
    · exact keeps_throw _

lemma rowCells {fs : List Form} (he : ∀ f ∈ fs, isEvaluated f = true → Keeps I (evaluate f))
    (table : String) : Keeps I (Definition.rowCells evaluate table fs) := by
  induction fs with
  | nil => exact keeps_pure []
  | cons f fs ih =>
    obtain ⟨hf, hfs⟩ := List.forall_mem_cons.1 he
    exact (cell hf table).bind fun v => (ih hfs).bind fun vs => keeps_pure (v :: vs)

lemma cellsFrom {rows : List Form}
    (he : ∀ f ∈ rows.flatMap (·.list?.getD []), isEvaluated f = true → Keeps I (evaluate f))
    (h : Definition.Header) (number : Nat) :
    Keeps I (Definition.cellsFrom evaluate h number rows) := by
  induction rows generalizing number with
  | nil => exact keeps_pure []
  | cons item rest ih =>
    rw [List.flatMap_cons, List.forall_mem_append] at he
    obtain ⟨hitem, hrest⟩ := he
    unfold Definition.cellsFrom
    cases hvalues : item.list? with
    | none => exact keeps_throw _
    | some values =>
      rw [hvalues] at hitem
      dsimp only
      split
      · exact keeps_throw _
      · exact (rowCells hitem h.name).bind fun vs => (ih hrest (number + 1)).bind fun others =>
          keeps_pure _

/-- Only cells that are left to evaluation change anything. -/
theorem table {defaultModule keyColumn : String} {form : List Form}
    (he : ∀ f ∈ evaluatedCells defaultModule keyColumn form, Keeps I (evaluate f)) :
    Keeps I (Definition.table evaluate defaultModule keyColumn form) := by
  have hparts : Keeps I (Definition.parts evaluate defaultModule keyColumn form) := by
    unfold Definition.parts
    cases hheader : Definition.headerOf defaultModule keyColumn form.tail with
    | error e => exact keeps_throw e
    | ok r =>
      have hcells : ∀ f ∈ r.2.flatMap (·.list?.getD []), isEvaluated f = true →
          Keeps I (evaluate f) := by
        intro f hf hevaluated
        refine he f ?_
        rw [evaluatedCells, hheader]
        exact List.mem_filter.2 ⟨hf, hevaluated⟩
      exact (cellsFrom hcells r.1 1).bind fun cells => keeps_pure _
  refine hparts.bind fun p => ?_
  cases Table.build p with
  | error e => exact keeps_throw e
  | ok t => exact keeps_pure t

end Definition

lemma defineTable (hI : Invariant I) (items : List Form) :
    Keeps I (Construct.defineTable items) := by
  intro env h
  have htable : Keeps I (Definition.table Construct.evalCell env.catalog.current
      env.config.autoKeyColumn items) := table fun f _ => hI.evalCell f
  refine htable.bind_of_ok (fun env₀ env' t ht h' => ?_) env h
  have hsized := Definition.sized_of_table ht
  cases hi : env'.catalog.install t with
  | error e =>
    have hr : Construct.install t env' = .error e env' := by simp only [Construct.install, hi]
    rw [final_of_error hr]
    exact h'
  | ok r =>
    have hr : Construct.install t env' = .ok () { env' with catalog := r.1 } := by
      simp only [Construct.install, hi]
    rw [final_of_ok hr]
    exact hI.install h' hsized hi

lemma assignGlobals (hI : Invariant I) :
    ∀ fs : List Form, Keeps I (Construct.assignGlobals fs)
  | [] => keeps_pure ()
  | [f] => keeps_throw _
  | [f, g] => keeps_throw _
  | f :: g :: value :: rest => by
    unfold Construct.assignGlobals
    split
    · rename_i name _
      exact hI.cleanSlate.bind fun _ => (hI.evalForm value).bind fun v =>
        Keeps.bind (fun _ h => hI.setGlobal name v h) fun _ => assignGlobals hI rest
    · exact keeps_throw _

lemma defineGlobals (hI : Invariant I) (fs : List Form) :
    Keeps I (Construct.defineGlobals fs) := by
  unfold Construct.defineGlobals
  split
  · exact hI.assignGlobals _
  · exact hI.assignGlobals _

lemma defineModules (hI : Invariant I) (items : List Form) :
    Keeps I (Construct.defineModule items) := by
  intro env h
  cases hname : items[1]?.bind Form.symbol? with
  | none =>
    simp only [final, Construct.defineModule, hname]
    exact h
  | some name =>
    cases himports : Construct.importsOf name (items.drop 2) with
    | error e =>
      simp only [final, Construct.defineModule, hname, himports]
      exact h
    | ok imports =>
      cases hc : env.catalog.defineModule name imports with
      | error e =>
        simp only [final, Construct.defineModule, hname, himports, hc]
        exact h
      | ok c =>
        simp only [final, Construct.defineModule, hname, himports, hc]
        exact hI.defineModule h hc

lemma construct (hI : Invariant I) (f : Form) : Keeps I (Construct.run f) := by
  refine hI.cleanSlate.bind fun _ => ?_
  split
  · split
    · exact hI.defineTable _
    · exact hI.defineGlobals _
    · exact hI.defineModules _
    · exact keeps_throw _
    · exact keeps_throw _
  · exact keeps_throw _

theorem constructs (hI : Invariant I) (fs : List Form) : Keeps I (Construct.runAll fs) := by
  induction fs with
  | nil => exact keeps_pure ()
  | cons f fs ih => exact (hI.construct f).bind fun _ => ih

lemma load (hI : Invariant I) (source : String) : Keeps I (Environment.load source) :=
  (keeps_ofExcept _).bind fun forms => (hI.constructs forms).bind fun _ => keeps_pure _

lemma build (hI : Invariant I) (source : String) : Keeps I (Environment.build source) :=
  (keeps_ofExcept _).bind fun f => hI.construct f

lemma evalSource (hI : Invariant I) (source : String) : Keeps I (Environment.evalSource source) :=
  hI.cleanSlate.bind fun _ => (keeps_ofExcept _).bind fun f => hI.evalForm f

lemma evalText (hI : Invariant I) (source : String) : Keeps I (Environment.eval source) := by
  intro env h
  have hlast := hI.evalSource source env h
  cases hr : Environment.evalSource source env with
  | ok v env' =>
    rw [final_of_ok hr] at hlast
    simp only [final, Environment.eval, hr]
    exact hlast
  | error e env' =>
    rw [final_of_error hr] at hlast
    simp only [final, Environment.eval, hr]
    exact hI.failed hlast

/-- Removing a table by name is what the call of the function with this name does. -/
theorem undefineTable (hI : Invariant I) (name : String) :
    Keeps I (Environment.undefineTable name) := by
  have hcall : (Expr.call .undefineTable [.const (.symbol name)]).eval = Call.removeTable name := by
    simp only [Expr.eval, Expr.operands]
    rfl
  refine Keeps.bind (fun env h => ?_) fun _ => keeps_pure ()
  have he := hI.eval (.call .undefineTable [.const (.symbol name)]) h
  rw [hcall] at he
  exact he

lemma setModule (hI : Invariant I) (name : String) : Keeps I (Environment.setModule name) := by
  intro env h
  cases hc : env.catalog.setCurrent name with
  | error e =>
    simp only [final, Environment.setModule, hc]
    exact h
  | ok c =>
    simp only [final, Environment.setModule, hc]
    exact hI.setCurrent h hc

lemma restoring (hI : Invariant I) (expand : Snapshot.Expander) (bytes : List UInt8) :
    Keeps I (Environment.restoreWith expand bytes) := by
  intro env h
  cases hb : env.catalog.firstBusy? with
  | some t =>
    simp only [final, Environment.restoreWith, hb]
    exact h
  | none =>
    cases hc : Snapshot.toCatalog expand bytes with
    | error e =>
      simp only [final, Environment.restoreWith, hb, hc]
      exact h
    | ok c =>
      simp only [final, Environment.restoreWith, hb, hc]
      exact hI.restore h hb hc

end Environment.Invariant

structure Session.Invariant (P : Session → Prop) : Prop where
  start (config : Config) : P (.start config)
  env (taken held : List Installed) : Environment.Invariant fun env => P ⟨env, taken, held⟩
  take {s : Session} {t : Installed} : P s → t ∈ s.env.catalog.tables →
    P { s with taken := s.taken ++ [t] }
  pin {s : Session} {t : Installed} : P s → t ∈ s.taken →
    P { s with env := s.env.pin t, held := t :: s.held }
  release {s : Session} {t : Installed} {position : Nat} : P s → s.held[position]? = some t →
    P { s with env := s.env.unpin t, held := s.held.eraseIdx position }

namespace Session.Invariant
variable {P : Session → Prop}

lemma step (hP : Invariant P) (s : Session) (a : Step) (h : P s) : P (s.step a) := by
  have henv := hP.env s.taken s.held
  cases a with
  | load source => exact henv.load source s.env h
  | build source => exact henv.build source s.env h
  | eval source => exact henv.evalText source s.env h
  | undefineTable name => exact henv.undefineTable name s.env h
  | setModule name => exact henv.setModule name s.env h
  | setGlobal name v => exact henv.setGlobal name v h
  | takeOutput => exact henv.takeOutput h
  | restore expand bytes => exact henv.restoring expand bytes s.env h
  | take position =>
    rw [Session.step]
    split
    · rename_i ht
      exact hP.take h (List.mem_of_getElem? ht)
    · exact h
  | pin position =>
    rw [Session.step]
    split
    · rename_i ht
      exact hP.pin h (List.mem_of_getElem? ht)
    · exact h
  | release position =>
    rw [Session.step]
    split
    · rename_i ht
      exact hP.release h ht
    · exact h

/-- An invariant holds throughout every session. -/
theorem run (hP : Invariant P) (config : Config) (steps : List Step) : P (Session.run config steps) :=
  run_induction (hP.start config) hP.step steps

end Session.Invariant

end KeyedTables
