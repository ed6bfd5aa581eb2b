import KeyedTables.Proofs.Evaluation.Failure
import KeyedTables.Proofs.Evaluation.Trace
import KeyedTables.Proofs.Expr.Parts
import Mathlib.Data.List.Forall2

/-!
# Relations that calls and scans keep

A call only combines what its operands do, and a scan what its test and action do. So a relation
between actions that holds of every single step, and of sequences when it holds of the parts, holds
of calls with related operands and of scans with related bodies, whatever the function or operator.
The removal of a table is the one step set apart, since it is asked for by one function only. Which
errors are related to themselves is left open: ordinary ones are, and if those of ill-formed calls
are not, the calls have to be well-formed.
-/
namespace KeyedTables

/-- What a call sees of an environment. -/
structure Environment.View where
  catalog : Catalog
  globals : Dictionary Value
  locals : Dictionary Value
  interrupted : Bool

def Environment.view (env : Environment) : Environment.View :=
  ⟨env.catalog, env.globals, env.locals, env.interrupted⟩

def Shape.isVariable : Shape → Bool
  | localVar _ | globalVar _ => true
  | elseMark | other => false

/-- A relation that single steps and sequences of actions keep, references to frames and the removal
of tables apart. -/
structure BaseCongruence (allowed : Error → Prop) (R : ∀ α : Type, Action α → Action α → Prop) :
    Prop where
  ordinary {e : Error} : e.isOrdinary = true → allowed e
  done {α : Type} (a : α) : R α (.done a) (.done a)
  fail {α : Type} {e : Error} (he : allowed e) : R α (.fail e) (.fail e)
  bind {α β : Type} {m m' : Action α} {f f' : α → Action β} :
    R α m m' → (∀ a, m.Yields a → R β (f a) (f' a)) → R β (m >>= f) (m' >>= f')
  look {α : Type} {f g : Environment.View → Action α} : (∀ view, R α (f view) (g view)) →
    R α (.environment >>= fun env => f env.view) (.environment >>= fun env => g env.view)
  abort : R Value Query.abort Query.abort
  emit (s : String) : R Unit (Call.emit s) (Call.emit s)
  halt : R Value Call.halt Call.halt
  assign {target : Shape} (h : target.isVariable = true) (v : Value) :
    R Value (Call.assign target v) (Call.assign target v)

abbrev Removing (R : ∀ α : Type, Action α → Action α → Prop) : Prop :=
  ∀ name, R Value (Call.removeTable name) (Call.removeTable name)

structure Congruence (allowed : Error → Prop) (R : ∀ α : Type, Action α → Action α → Prop) : Prop
    extends BaseCongruence allowed R where
  removeTable : Removing R

/-- A relation between actions in an environment that single steps and sequences keep, as long as a
condition on the environment is met, the removal of tables apart. -/
structure BaseSimulation (allowed : Error → Prop) (pre : Environment → Prop)
    (P : ∀ α : Type, Action α → Action α → Environment → Prop) : Prop where
  ordinary {e : Error} : e.isOrdinary = true → allowed e
  done {α : Type} {env : Environment} (h : pre env) (a : α) : P α (.done a) (.done a) env
  fail {α : Type} {env : Environment} (h : pre env) {e : Error} (he : allowed e) :
    P α (.fail e) (.fail e) env
  /-- A look at the environment changes nothing. -/
  look {β : Type} {env : Environment} {f f' : Environment → Action β} :
    P β (f env) (f' env) env → P β (.environment >>= f) (.environment >>= f') env
  bind {α β : Type} {env : Environment} {m m' : Action α} {f f' : α → Action β} :
    P α m m' env → (∀ a env', m.run env = .ok a env' → pre env' → P β (f a) (f' a) env') →
      P β (m >>= f) (m' >>= f') env
  /-- Variables, output and flags do not matter. -/
  write {env : Environment} {g : Environment → Environment} : pre env →
    (g env).config = env.config → (g env).catalog = env.catalog → (g env).frames = env.frames →
      P Unit (.update g) (.update g) env
  abort {env : Environment} : pre env →
    P Unit (.update Environment.abortInnermost) (.update Environment.abortInnermost) env

structure Simulation (allowed : Error → Prop) (pre : Environment → Prop)
    (P : ∀ α : Type, Action α → Action α → Environment → Prop) : Prop
    extends BaseSimulation allowed pre P where
  remove {env : Environment} {name : String} {c : Catalog} : pre env →
    env.catalog.remove name = .ok c →
      P Unit (.update fun env => { env with catalog := c })
        (.update fun env => { env with catalog := c }) env

/-- Operands that a call with branches treats alike and whose evaluations are related. -/
structure Operand.Related (R : ∀ α : Type, Action α → Action α → Prop) (o o' : Operand) : Prop where
  elseMark_iff : o.shape = .elseMark ↔ o'.shape = .elseMark
  run : R Value o.run o'.run

/-- That a call is ill-formed may be reported. -/
def Lenient (allowed : Error → Prop) : Prop := ∀ e : Error, e.isMalformed = true → allowed e

/-- The arguments fit the function. -/
structure Call.WellFormed (function : Builtin) (os : List Operand) : Prop where
  arity : function.arity.admits os.length = true
  branches : function = .ifThen → 2 ≤ os.length
  target : function = .bind → ∀ o, os.head? = some o → o.shape.isVariable = true

/-- Errors that only some calls end with do not come from this one, or they are allowed. -/
structure Call.Permitted (allowed : Error → Prop) (function : Builtin) (os : List Operand) :
    Prop where
  fits : Call.WellFormed function os ∨ Lenient allowed
  lookup : function = .lookup → ∀ table key, allowed (.noColumnForKey table key)

lemma Call.Permitted.least {allowed : Error → Prop} {function : Builtin} {os : List Operand}
    (h : Call.Permitted allowed function os) {n : Nat} (hn : n ≤ function.arity.least) :
    n ≤ os.length ∨ Lenient allowed :=
  h.fits.imp_left fun hw => Nat.le_trans hn (Arity.admits_iff.1 hw.arity).1

theorem Call.Permitted.of_forall {allowed : Error → Prop} (h : ∀ e, allowed e) (function : Builtin)
    (os : List Operand) : Call.Permitted allowed function os :=
  ⟨Or.inr fun e _ => h e, fun _ _ _ => h _⟩

section Simulations
variable {allowed : Error → Prop} {pre : Environment → Prop}
  {P : ∀ α : Type, Action α → Action α → Environment → Prop}

lemma BaseSimulation.update_done (hP : BaseSimulation allowed pre P) {α : Type}
    {env : Environment} {g : Environment → Environment} (hg : P Unit (.update g) (.update g) env)
    (a : α) : P α (do .update g; pure a) (do .update g; pure a) env :=
  hP.bind hg fun _ _ _ h => hP.done h a

/-- Actions so related wherever the condition is met are related as calls ask for. -/
theorem BaseSimulation.congruence (hP : BaseSimulation allowed pre P) :
    BaseCongruence allowed fun α m m' => ∀ env, pre env → P α m m' env where
  ordinary := hP.ordinary
  done a := fun env h => hP.done h a
  fail he := fun env h => hP.fail h he
  bind hm hf := fun env h => hP.bind (hm env h) fun a env' ha h' => hf a ⟨env, env', ha⟩ env' h'
  look hf := fun env h => hP.look (hf env.view env h)
  abort := by
    intro env h
    refine hP.look ?_
    split
    · exact hP.fail h (hP.ordinary rfl)
    · exact hP.update_done (hP.abort h) _
  emit s := fun env h => hP.write h rfl rfl rfl
  halt := fun env h => hP.update_done (hP.write h rfl rfl rfl) _
  assign {target} htarget v := by
    intro env h
    cases target with
    | localVar x => exact hP.update_done (hP.write h rfl rfl rfl) _
    | globalVar x =>
      refine hP.look ?_
      cases env.globals.get? x with
      | none => exact hP.fail h (hP.ordinary rfl)
      | some _ => exact hP.update_done (hP.write h rfl rfl rfl) _
    | elseMark | other => cases htarget

theorem Simulation.congruence (hP : Simulation allowed pre P) :
    Congruence allowed fun α m m' => ∀ env, pre env → P α m m' env where
  toBaseCongruence := hP.toBaseSimulation.congruence
  removeTable name := by
    intro env h
    refine hP.look ?_
    cases hr : env.catalog.remove name with
    | error e => exact hP.fail h (hP.ordinary (Catalog.isOrdinary_remove hr))
    | ok catalog => exact hP.update_done (hP.remove h hr) _

end Simulations

/-- A known table is found if the catalog has the same one under its name. -/
theorem Query.findKnown_eq (t : Installed) :
    findKnown t = (.environment >>= fun env =>
      if (env.catalog.find t.table.qualifiedName).toOption.any (·.serial = t.serial) then pure t
      else .fail (.tableNotFound t.table.qualifiedName)) := by
  refine congrArg (Action.environment >>= ·) (funext fun env => ?_)
  cases env.catalog.find t.table.qualifiedName with
  | error _ => rfl
  | ok current => simp [Except.toOption]

namespace BaseCongruence
variable {allowed : Error → Prop} {R : ∀ α : Type, Action α → Action α → Prop}

theorem ofExcept (hR : BaseCongruence allowed R) {α : Type} {x : Except Error α}
    (hx : ∀ {e}, x = .error e → allowed e) : R α (.ofExcept x) (.ofExcept x) := by
  cases x with
  | ok a => exact hR.done a
  | error e => exact hR.fail (hx rfl)

lemma failOrdinary (hR : BaseCongruence allowed R) {α : Type} {e : Error}
    (he : e.isOrdinary = true) : R α (.fail e) (.fail e) := hR.fail (hR.ordinary he)

/-- A look at the environment may decide how to go on. -/
theorem interrupted (hR : BaseCongruence allowed R) {α : Type} {m m' n n' : Action α}
    (hm : R α m m') (hn : R α n n') :
    R α (do if (← .environment).interrupted then m else n)
      (do if (← .environment).interrupted then m' else n') := by
  refine hR.look (f := fun view => if view.interrupted then m else n)
    (g := fun view => if view.interrupted then m' else n') fun view => ?_
  cases view.interrupted with
  | true => exact hm
  | false => exact hn

lemma findTable (hR : BaseCongruence allowed R) (name : String) :
    R Installed (Query.findTable name) (Query.findTable name) :=
  hR.look (f := fun view => .ofExcept (view.catalog.find name))
    (g := fun view => .ofExcept (view.catalog.find name)) fun _ =>
      hR.ofExcept fun he => hR.ordinary (Catalog.isOrdinary_find he)

theorem findNamed (hR : BaseCongruence allowed R) (op : Operator) (v : Value) :
    R Installed (Query.findNamed op v) (Query.findNamed op v) := by
  unfold Query.findNamed
  cases v.lexeme? with
  | some name => exact hR.findTable name
  | none => exact hR.failOrdinary rfl

/-- Finding a known table in the catalog. -/
theorem findKnown (hR : BaseCongruence allowed R) (t : Installed) :
    R Installed (Query.findKnown t) (Query.findKnown t) := by
  rw [Query.findKnown_eq]
  let find : Environment.View → Action Installed := fun view =>
    if (view.catalog.find t.table.qualifiedName).toOption.any (·.serial = t.serial) then pure t
    else .fail (.tableNotFound t.table.qualifiedName)
  refine hR.look (f := find) (g := find) fun view => ?_
  dsimp only [find]
  split
  · exact hR.done t
  · exact hR.failOrdinary rfl

/-- What is found in the environment is given back. -/
theorem found (hR : BaseCongruence allowed R) {f : Environment.View → Option Value} {e : Error}
    (he : e.isOrdinary = true) :
    R Value
      (.environment >>= fun env => match f env.view with | some v => pure v | none => .fail e)
      (.environment >>= fun env =>
        match f env.view with | some v => pure v | none => .fail e) := by
  let answer : Option Value → Action Value
    | some v => pure v
    | none => .fail e
  refine hR.look (f := fun view => answer (f view)) (g := fun view => answer (f view))
    fun view => ?_
  cases f view with
  | some v => exact hR.done v
  | none => exact hR.failOrdinary he

theorem readLocal (hR : BaseCongruence allowed R) (name : String) :
    R Value (KeyedTables.readLocal name) (KeyedTables.readLocal name) :=
  hR.found (f := fun view => view.locals.get? name) rfl

theorem readGlobal (hR : BaseCongruence allowed R) (name : String) :
    R Value (KeyedTables.readGlobal name) (KeyedTables.readGlobal name) :=
  hR.found (f := fun view => view.globals.get? name) rfl

/-- What cannot be bound is reported. -/
theorem assignTo (hR : BaseCongruence allowed R) {target : Shape}
    (h : target.isVariable = true ∨ Lenient allowed) (v : Value) :
    R Value (Call.assign target v) (Call.assign target v) := by
  cases target with
  | localVar x => exact hR.assign rfl v
  | globalVar x => exact hR.assign rfl v
  | elseMark | other =>
    obtain h | h := h
    · cases h
    · exact hR.fail (h _ rfl)

variable {os os' : List Operand}

lemma runAll (hR : BaseCongruence allowed R) (h : List.Forall₂ (Operand.Related R) os os') :
    R (List Value) (Call.runAll os) (Call.runAll os') := by
  induction h with
  | nil => exact hR.done []
  | cons ho _ ih => exact hR.bind ho.run fun v _ => hR.bind ih fun vs _ => hR.done (v :: vs)

lemma length_of_yields_runAll {vs : List Value} (h : (Call.runAll os).Yields vs) :
    vs.length = os.length := by
  obtain ⟨env, env', h⟩ := h
  induction os generalizing env vs with
  | nil =>
    cases h
    rfl
  | cons o os ih =>
    obtain ⟨v, env₁, _, h⟩ := Action.run_bind_eq_ok h
    obtain ⟨vs', env₂, hvs, h⟩ := Action.run_bind_eq_ok h
    cases h
    rw [List.length_cons, List.length_cons, ih env₁ hvs]

/-- What is only reported of no operands at all is not reported of some. -/
theorem allowed_of_runAll (hR : BaseCongruence allowed R) (h : 1 ≤ os.length ∨ Lenient allowed)
    {vs : List Value} (hvs : (Call.runAll os).Yields vs) {e : Error}
    (he : e.isOrdinary = true ∨ (vs = [] ∧ e.isMalformed = true)) : allowed e := by
  obtain he | ⟨rfl, he⟩ := he
  · exact hR.ordinary he
  · obtain h | h := h
    · rw [← length_of_yields_runAll hvs] at h
      cases h
    · exact h e he

/-- At a position there are related operands or none. -/
theorem getElem?_cases (h : List.Forall₂ (Operand.Related R) os os') (position : Nat) :
    (os[position]? = none ∧ os'[position]? = none) ∨
      ∃ o o', os[position]? = some o ∧ os'[position]? = some o' ∧ Operand.Related R o o' := by
  induction h generalizing position with
  | nil => exact Or.inl ⟨rfl, rfl⟩
  | @cons o o' os os' ho _ ih =>
    cases position with
    | zero => exact Or.inr ⟨o, o', rfl, rfl, ho⟩
    | succ n => exact ih n

theorem argument (hR : BaseCongruence allowed R) (h : List.Forall₂ (Operand.Related R) os os')
    (function : Builtin) {position : Nat} (hlt : position < os.length ∨ Lenient allowed) :
    R Value (Call.argument function os position) (Call.argument function os' position) := by
  unfold Call.argument
  obtain ⟨hn, hn'⟩ | ⟨o, o', ho, ho', hr⟩ := getElem?_cases h position
  · rw [hn, hn']
    obtain hlt | hlenient := hlt
    · exact absurd hlt (Nat.not_lt.2 (List.getElem?_eq_none_iff.1 hn))
    · exact hR.fail (hlenient _ rfl)
  · rw [ho, ho']
    exact hr.run

lemma conjunction (hR : BaseCongruence allowed R) (h : List.Forall₂ (Operand.Related R) os os') :
    R Value (Call.conjunction os) (Call.conjunction os') := by
  induction h with
  | nil => exact hR.done _
  | @cons o o' os os' ho _ ih =>
    refine hR.bind ho.run fun v _ => ?_
    cases v.isTrue with
    | true => exact ih
    | false => exact hR.done _

lemma disjunction (hR : BaseCongruence allowed R) (h : List.Forall₂ (Operand.Related R) os os') :
    R Value (Call.disjunction os) (Call.disjunction os') := by
  induction h with
  | nil => exact hR.done _
  | @cons o o' os os' ho _ ih =>
    refine hR.bind ho.run fun v _ => ?_
    cases v.isTrue with
    | true => exact hR.done _
    | false => exact ih

theorem sequence (hR : BaseCongruence allowed R) (h : List.Forall₂ (Operand.Related R) os os')
    (last : Value) :
    R Value (Call.sequence last os) (Call.sequence last os') := by
  induction h generalizing last with
  | nil => exact hR.done last
  | cons ho _ ih => exact hR.bind ho.run fun v _ => hR.interrupted (hR.done v) (ih v)

lemma printAll (hR : BaseCongruence allowed R) (h : List.Forall₂ (Operand.Related R) os os') :
    R Value (Call.printAll os) (Call.printAll os') := by
  induction h with
  | nil => exact hR.done _
  | cons ho _ ih => exact hR.bind ho.run fun v _ => hR.bind (hR.emit _) fun _ _ => ih

/-- Related operands fall into related branches. -/
theorem branches (h : List.Forall₂ (Operand.Related R) os os') :
    List.Forall₂ (Operand.Related R) (Call.branches os).1 (Call.branches os').1 ∧
      List.Forall₂ (Operand.Related R) (Call.branches os).2 (Call.branches os').2 := by
  induction h with
  | nil => exact ⟨.nil, .nil⟩
  | @cons o o' os os' ho hos ih =>
    simp only [Call.branches]
    by_cases hm : o.shape = .elseMark
    · rw [if_pos hm, if_pos (ho.elseMark_iff.1 hm)]
      exact ⟨.nil, hos⟩
    · rw [if_neg hm, if_neg fun hm' => hm (ho.elseMark_iff.2 hm')]
      exact ⟨.cons ho ih.1, ih.2⟩

lemma choose (hR : BaseCongruence allowed R) (h : List.Forall₂ (Operand.Related R) os os')
    (hlength : 2 ≤ os.length ∨ Lenient allowed) : R Value (Call.choose os) (Call.choose os') := by
  cases h with
  | nil =>
    obtain hlength | hlenient := hlength
    · cases hlength
    · exact hR.fail (hlenient _ rfl)
  | cons hc ht =>
    cases ht with
    | nil =>
      obtain hlength | hlenient := hlength
      · exact absurd hlength (by simp)
      · exact hR.fail (hlenient _ rfl)
    | cons _ hb =>
      refine hR.bind hc.run fun v _ => ?_
      cases v.isTrue with
      | true => exact hR.sequence (branches hb).1 .false
      | false => exact hR.sequence (branches hb).2 .false

/-- The target of `bind` is not evaluated; it has to be the same. -/
theorem bindCall (hR : BaseCongruence allowed R) {target target' : Operand}
    (ht : target.shape = target'.shape)
    (hvariable : target.shape.isVariable = true ∨ Lenient allowed)
    (h : List.Forall₂ (Operand.Related R) os os') :
    R Value (Call.bind (target :: os)) (Call.bind (target' :: os')) := by
  refine hR.bind (hR.runAll h) fun vs _ => ?_
  rw [ht] at hvariable ⊢
  exact hR.assignTo hvariable (Call.bound vs)

lemma tableName (hR : BaseCongruence allowed R) (h : List.Forall₂ (Operand.Related R) os os')
    (function : Builtin) (hlength : 1 ≤ os.length ∨ Lenient allowed) :
    R String (Call.tableName function os) (Call.tableName function os') := by
  refine hR.bind (hR.argument h function hlength) fun v _ => ?_
  cases v.lexeme? with
  | some name => exact hR.done name
  | none => exact hR.failOrdinary rfl

theorem tableArgument (hR : BaseCongruence allowed R) (h : List.Forall₂ (Operand.Related R) os os')
    (function : Builtin) (hlength : 1 ≤ os.length ∨ Lenient allowed) :
    R Table (Call.tableArgument function os) (Call.tableArgument function os') :=
  hR.bind (hR.tableName h function hlength) fun name _ =>
    hR.bind (hR.findTable name) fun t _ => hR.done t.table

/-- A function other than `bind` is applied to related operands with related effect. -/
theorem call (hR : BaseCongruence allowed R) (h : List.Forall₂ (Operand.Related R) os os')
    {function : Builtin} (hf : function ≠ .bind) (hpermitted : Call.Permitted allowed function os)
    (hremove : function = .undefineTable → Removing R) :
    R Value (Call.run function os) (Call.run function os') := by
  cases function with
  | add | sub | mul | div =>
    exact hR.bind (hR.runAll h) fun vs hvs => hR.ofExcept fun he =>
      hR.allowed_of_runAll (hpermitted.least (by decide)) hvs (Arithmetic.kind_of_apply he)
  | numEq | numNe | gt | ge | lt | le =>
    exact hR.bind (hR.runAll h) fun vs _ => hR.ofExcept fun he =>
      hR.ordinary (Arithmetic.isOrdinary_compare he)
  | eq | neq =>
    exact hR.bind (hR.runAll h) fun vs hvs => hR.ofExcept fun he =>
      hR.allowed_of_runAll (hpermitted.least (by decide)) hvs (Call.kind_of_agree he)
  | and => exact hR.conjunction h
  | or => exact hR.disjunction h
  | not => exact hR.bind (hR.argument h .not (hpermitted.least (by decide))) fun v _ => hR.done _
  | progn => exact hR.sequence h .false
  | ifThen => exact hR.choose h (hpermitted.fits.imp_left fun hw => hw.branches rfl)
  | bind => exact absurd rfl hf
  | createField => exact hR.bind (hR.runAll h) fun vs _ => hR.done _
  | fieldLength =>
    refine hR.bind (hR.argument h .fieldLength (hpermitted.least (by decide))) fun v _ => ?_
    cases v with
    | atom a => exact hR.failOrdinary rfl
    | multifield xs => exact hR.done _
  | fieldNth =>
    refine hR.bind (hR.argument h .fieldNth (hpermitted.least (by decide))) fun index _ => ?_
    cases index.integer? with
    | none => exact hR.failOrdinary rfl
    | some n =>
      refine hR.bind (hR.argument h .fieldNth (hpermitted.least (by decide))) fun v _ => ?_
      cases v with
      | atom a => exact hR.failOrdinary rfl
      | multifield xs => exact hR.ofExcept fun he => hR.ordinary (Call.isOrdinary_nth he)
  | strCat | symCat => exact hR.bind (hR.runAll h) fun vs _ => hR.done _
  | printout =>
    refine hR.bind (hR.argument h .printout (hpermitted.least (by decide))) fun _ _ =>
      hR.printAll ?_
    cases h with
    | nil => exact .nil
    | cons _ ht => exact ht
  | «break» => exact hR.abort
  | halt => exact hR.halt
  | lookup =>
    refine hR.bind (hR.tableArgument h .lookup (hpermitted.least (by decide))) fun t _ =>
      hR.bind (hR.argument h .lookup (hpermitted.least (by decide))) fun row _ =>
        hR.bind (hR.argument h .lookup (hpermitted.least (by decide))) fun col _ =>
          hR.ofExcept fun he => ?_
    obtain he | rfl := Table.kind_of_lookup he
    · exact hR.ordinary he
    · exact hpermitted.lookup rfl _ _
  | containsKey =>
    exact hR.bind (hR.tableArgument h .containsKey (hpermitted.least (by decide))) fun t _ =>
      hR.bind (hR.argument h .containsKey (hpermitted.least (by decide))) fun key _ => hR.done _
  | tableColumns =>
    exact hR.bind (hR.tableArgument h .tableColumns (hpermitted.least (by decide)))
      fun t _ => hR.done _
  | tableRowCount =>
    exact hR.bind (hR.tableArgument h .tableRowCount (hpermitted.least (by decide)))
      fun t _ => hR.done _
  | undefineTable =>
    exact hR.bind (hR.tableName h .undefineTable (hpermitted.least (by decide)))
      fun name _ => hremove rfl name

/-- Every function is applied with related effect to related operands that look the same. -/
theorem call_of_shape_eq (hR : BaseCongruence allowed R)
    (h : List.Forall₂ (fun o o' => o.shape = o'.shape ∧ R Value o.run o'.run) os os')
    {function : Builtin} (hpermitted : Call.Permitted allowed function os)
    (hremove : function = .undefineTable → Removing R) :
    R Value (Call.run function os) (Call.run function os') := by
  have hrelated : ∀ {os os' : List Operand},
      List.Forall₂ (fun o o' => o.shape = o'.shape ∧ R Value o.run o'.run) os os' →
        List.Forall₂ (Operand.Related R) os os' := fun h =>
    h.imp fun _ _ ho => ⟨by rw [ho.1], ho.2⟩
  by_cases hf : function = .bind
  · subst hf
    cases h with
    | nil =>
      obtain hlength | hlenient := hpermitted.least (n := 1) (by decide)
      · cases hlength
      · exact hR.fail (hlenient _ rfl)
    | cons ho hos =>
      exact hR.bindCall ho.1 (hpermitted.fits.imp_left fun hw => hw.target rfl _ rfl)
        (hrelated hos)
  · exact hR.call (hrelated h) hf hpermitted hremove

/-- Applied to the same operands, every function is related to itself. -/
theorem call_self (hR : BaseCongruence allowed R) (h : ∀ o ∈ os, R Value o.run o.run)
    {function : Builtin} (hpermitted : Call.Permitted allowed function os)
    (hremove : function = .undefineTable → Removing R) :
    R Value (Call.run function os) (Call.run function os) :=
  hR.call_of_shape_eq (List.forall₂_same.2 fun o ho => ⟨rfl, h o ho⟩) hpermitted hremove

section Scans
variable {test test' action action' : Action Value}

lemma testRow (hR : BaseCongruence allowed R) {row : Nat}
    (hv : R Unit (.update (·.visit row)) (.update (·.visit row))) (ht : R Value test test') :
    R Bool (Query.testRow test row) (Query.testRow test' row) :=
  hR.bind hv fun _ _ => hR.bind ht fun v _ =>
    hR.look (f := fun view => .done (v.isTrue && !view.interrupted))
      (g := fun view => .done (v.isTrue && !view.interrupted)) fun _ => hR.done _

lemma onMatch (hR : BaseCongruence allowed R) (hk : R Value (Query.rowKey 0) (Query.rowKey 0))
    (ha : R Value action action') (op : Operator) :
    R Query.Step (Query.onMatch op action) (Query.onMatch op action') := by
  cases op with
  | rowExists => exact hR.done _
  | findRow => exact hR.bind hk fun v _ => hR.done _
  | doForRow | doForThisRow | doForAllRows => exact hR.bind ha fun v _ => hR.done _

lemma scan (hR : BaseCongruence allowed R) (hk : R Value (Query.rowKey 0) (Query.rowKey 0))
    (ht : R Value test test') (ha : R Value action action') (op : Operator) {rows : List Nat}
    (hv : ∀ row ∈ rows, R Unit (.update (·.visit row)) (.update (·.visit row))) (last : Value) :
    R Value (Query.scan op ⟨test, action⟩ rows last)
      (Query.scan op ⟨test', action'⟩ rows last) := by
  induction rows generalizing last with
  | nil => exact hR.done last
  | cons row rows ih =>
    have hnext := ih fun r hr => hv r (List.mem_cons_of_mem _ hr)
    refine hR.bind (hR.testRow (hv row List.mem_cons_self) ht) fun passed _ => ?_
    cases passed with
    | false => exact hR.interrupted (hR.done last) (hnext last)
    | true =>
      refine hR.bind (hR.onMatch hk ha op) fun step _ => ?_
      cases step with
      | done v => exact hR.done v
      | more v => exact hR.interrupted (hR.done v) (hnext v)

theorem visitRow (hR : BaseCongruence allowed R) {row : Nat}
    (hv : R Unit (.update (·.visit row)) (.update (·.visit row))) (ht : R Value test test')
    (ha : R Value action action') :
    R Value (Query.visitRow ⟨test, action⟩ row) (Query.visitRow ⟨test', action'⟩ row) := by
  refine hR.bind (hR.testRow hv ht) fun passed _ => ?_
  cases passed with
  | true => exact ha
  | false => exact hR.done _

/-- The rows that a query visits are related when the steps to them are, and the bodies. -/
theorem visits (hR : BaseCongruence allowed R) (hk : R Value (Query.rowKey 0) (Query.rowKey 0))
    (ht : R Value test test') (ha : R Value action action') (op : Operator) {t : Table}
    {start : Nat}
    (hv : ∀ row, (op = .doForThisRow ∧ row = start) ∨ row < t.rowCount →
      R Unit (.update (·.visit row)) (.update (·.visit row))) :
    R Value (Query.visits op t start ⟨test, action⟩)
      (Query.visits op t start ⟨test', action'⟩) := by
  have hscan : ∀ op, R Value (Query.scan op ⟨test, action⟩ (List.range t.rowCount) .false)
      (Query.scan op ⟨test', action'⟩ (List.range t.rowCount) .false) := fun op =>
    hR.scan hk ht ha op (fun row hr => hv row (Or.inr (List.mem_range.1 hr))) .false
  cases op with
  | doForThisRow => exact hR.visitRow (hv start (Or.inl ⟨rfl, rfl⟩)) ht ha
  | rowExists | findRow | doForRow | doForAllRows => exact hscan _

/-- The row a query starts at depends on the key alone. -/
theorem startRow (hR : BaseCongruence allowed R) {key key' : Option (Action Value)} {op : Operator}
    (h : Option.Rel (R Value) key key')
    (hkey : (op = .doForThisRow → key.isSome = true) ∨ Lenient allowed) (t : Table) :
    R Nat (Query.startRow op t key) (Query.startRow op t key') := by
  cases op with
  | rowExists | findRow | doForRow | doForAllRows => exact hR.done 0
  | doForThisRow =>
    cases h with
    | none =>
      obtain hkey | hlenient := hkey
      · cases hkey rfl
      · exact hR.fail (hlenient _ rfl)
    | some hk =>
      refine hR.bind hk fun k _ => ?_
      cases t.rowOrdinal? k with
      | some row => exact hR.done row
      | none => exact hR.failOrdinary rfl

end Scans

end BaseCongruence

/-- A relation that every failure keeps, and every look at the environment. -/
structure TotalCongruence (R : ∀ α : Type, Action α → Action α → Prop) : Prop
    extends BaseCongruence (fun _ => True) R where
  environment : R Environment .environment .environment

namespace TotalCongruence
variable {R : ∀ α : Type, Action α → Action α → Prop}

lemma frame (hR : TotalCongruence R) (depth : Nat) :
    R Frame (Query.frame depth) (Query.frame depth) := by
  refine hR.bind hR.environment fun env _ => ?_
  cases env.frames[depth]? with
  | some f => exact hR.done f
  | none => exact hR.fail trivial

theorem rowKey (hR : TotalCongruence R) (depth : Nat) :
    R Value (Query.rowKey depth) (Query.rowKey depth) := by
  refine hR.bind (hR.frame depth) fun f _ => ?_
  cases f.table.table.rowKey? f.row with
  | some v => exact hR.done v
  | none => exact hR.bind hR.environment fun env _ => hR.fail trivial

theorem column (hR : TotalCongruence R) (depth : Nat) (key : Atom) (ordinal : Option Nat) :
    R Value (Query.column depth key ordinal) (Query.column depth key ordinal) := by
  refine hR.bind (hR.frame depth) fun f _ => ?_
  refine hR.bind (hR.ofExcept fun _ => trivial) fun col _ => ?_
  cases f.table.table.cell? f.row col with
  | some v => exact hR.done v
  | none => exact hR.fail trivial

end TotalCongruence

/-- A relation that references, and queries with related parts, keep: it relates the evaluation of
every expression to itself, provided that it is kept by the removal of tables or that the expression
removes none. -/
structure EvaluationCongruence (R : ∀ α : Type, Action α → Action α → Prop) : Prop
    extends BaseCongruence (fun _ => True) R where
  rowKey (depth : Nat) : R Value (Query.rowKey depth) (Query.rowKey depth)
  column (depth : Nat) (key : Atom) (ordinal : Option Nat) :
    R Value (Query.column depth key ordinal) (Query.column depth key ordinal)
  query (op : Operator) (rowVariable : String) {target : Action Installed}
    {key : Option (Action Value)} {body : Query.Body} :
    R Installed target target → Option.Rel (R Value) key key → R Value body.test body.test →
      R Value body.action body.action →
        R Value (Query.run op rowVariable target key body)
          (Query.run op rowVariable target key body)

namespace EvaluationCongruence
variable {R : ∀ α : Type, Action α → Action α → Prop}

mutual

theorem eval (hR : EvaluationCongruence R) :
    ∀ e : Expr, (e.removes = true → Removing R) → R Value e.eval e.eval
  | .const v, _ => by
    rw [Expr.eval]
    exact hR.done v
  | .localVar x, _ => by
    rw [Expr.eval]
    exact hR.readLocal x
  | .globalVar x, _ => by
    rw [Expr.eval]
    exact hR.readGlobal x
  | .call function args, hremove => by
    rw [Expr.eval]
    refine hR.call_self (operands hR args fun a ha h => ?_) (.of_forall (fun _ => trivial) _ _) ?_
    · exact hremove (Expr.removes_of_subset (Expr.parts_subset_call ha) h)
    · rintro rfl
      exact hremove (Expr.removes_undefineTable args)
  | .rowKey depth, _ => by
    rw [Expr.eval]
    exact hR.rowKey depth
  | .column depth key ordinal, _ => by
    rw [Expr.eval]
    exact hR.column depth key ordinal
  | .query op rowVariable target key test action, hremove => by
    have htest := eval hR test fun h => hremove (Expr.removes_of_subset Expr.parts_test_subset h)
    have htarget := evalTarget hR op target fun e he h => hremove (by
      rw [he]
      exact Expr.removes_of_subset Expr.parts_target_subset h)
    have hkey := evalOption hR key fun e he h => hremove (by
      rw [he]
      exact Expr.removes_of_subset Expr.parts_key_subset h)
    have haction := evalOption hR action fun e he h => hremove (by
      rw [he]
      exact Expr.removes_of_subset Expr.parts_action_subset h)
    rw [Expr.eval]
    refine hR.query op rowVariable htarget hkey htest ?_
    cases action with
    | none => exact hR.done _
    | some action =>
      rw [Expr.evalOption] at haction ⊢
      cases haction with
      | some haction => exact haction

theorem operands (hR : EvaluationCongruence R) :
    ∀ es : List Expr, (∀ e ∈ es, e.removes = true → Removing R) →
      ∀ o ∈ Expr.operands es, R Value o.run o.run
  | [], _ => fun o ho => by
    rw [Expr.operands] at ho
    cases ho
  | e :: es, hremove => fun o ho => by
    rw [Expr.operands] at ho
    cases ho with
    | head => exact eval hR e (hremove e List.mem_cons_self)
    | tail _ ho => exact operands hR es (fun a ha => hremove a (List.mem_cons_of_mem _ ha)) o ho

theorem evalTarget (hR : EvaluationCongruence R) (op : Operator) :
    ∀ target : Target, (∀ e, target = .named e → e.removes = true → Removing R) →
      R Installed (Expr.evalTarget op target) (Expr.evalTarget op target)
  | .known t, _ => by
    rw [Expr.evalTarget]
    exact hR.findKnown t
  | .named e, hremove => by
    rw [Expr.evalTarget]
    exact hR.bind (eval hR e (hremove e rfl)) fun v _ => hR.findNamed op v

theorem evalOption (hR : EvaluationCongruence R) :
    ∀ key : Option Expr, (∀ e, key = some e → e.removes = true → Removing R) →
      Option.Rel (R Value) (Expr.evalOption key) (Expr.evalOption key)
  | none, _ => by
    rw [Expr.evalOption]
    exact .none
  | some e, hremove => by
    rw [Expr.evalOption]
    exact .some (eval hR e (hremove e rfl))

end

end EvaluationCongruence

end KeyedTables
