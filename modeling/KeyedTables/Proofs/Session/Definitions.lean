import KeyedTables.Proofs.Catalog.Installation
import KeyedTables.Proofs.Expr.Calls
import KeyedTables.Proofs.Session.Catalog
import KeyedTables.Proofs.Session.Pins

/-!
# Definitions of tables in sessions

The cells of a definition are evaluated before anything is installed, and leave the catalog as it
was if none of them removes a table: pins that are taken are released again, whatever a cell comes
to. So a definition changes the catalog when all of it is in order, and then in one slot only.
-/
namespace KeyedTables

open Eval

/-- An environment that a session comes to, between two steps or between two constructs of a text
that is loaded. -/
def Environment.Reachable (env : Environment) : Prop :=
  ∃ config steps forms, env = (Construct.runAll forms).final (Session.run config steps).env

lemma Environment.Reachable.frames {env : Environment} (h : env.Reachable) : env.frames = [] := by
  obtain ⟨config, steps, forms, rfl⟩ := h
  have hI := Session.settled_invariant.env (Session.run config steps).taken
    (Session.run config steps).held
  exact (hI.constructs forms _ (Session.settled_run config steps)).frames

lemma Environment.Reachable.sound {env : Environment} (h : env.Reachable) :
    ∃ others, env.catalog.Sound others := by
  obtain ⟨config, steps, forms, rfl⟩ := h
  have hI := Session.sound_invariant.env (Session.run config steps).taken
    (Session.run config steps).held
  exact ⟨_, hI.constructs forms _ (Session.sound_run config steps)⟩

/-- No query is in progress, and the catalog is the given one, each table being as busy as there. -/
structure Environment.Holding (c : Catalog) (env : Environment) : Prop where
  frames : env.frames = []
  catalog : c.EqUpToPins env.catalog
  busy (t : Installed) : env.catalog.busy t = c.busy t

namespace Environment.Holding
variable {c : Catalog} {env : Environment}

lemma eval (h : env.Holding c) {e : Expr} (he : e.removes = false) :
    (e.eval.final env).Holding c := by
  have hframes := Course.reached (disciplined_eval env.catalog.pins e env)
  have hbalanced : env.Balanced env.catalog.pins := fun t => by
    rw [livePins, h.frames]
    exact (Nat.zero_add _).symm
  have hend := hframes.last.frames.eq_nil h.frames
  refine ⟨hend, Catalog.EqUpToPins.pinBlind.trans h.catalog (eqUpToPins_eval he env).last,
    fun t => ?_⟩
  rw [(hframes.moment hbalanced).balanced t, livePins, hend, ← h.busy t]
  exact Nat.zero_add _

/-- A cell that does not call the function that removes tables. -/
theorem evalCell {f : Form} (hf : Resolution.KeepsTables f) :
    Keeps (Holding c) (Construct.evalCell f) := by
  have hbegin : Keeps (Holding c) Construct.cleanSlate := fun _ h => ⟨h.frames, h.catalog, h.busy⟩
  exact hbegin.bind fun _ => keeps_evalForm fun _ _ h he => h.eval (Resolution.not_removes_form f hf he)

end Environment.Holding

namespace Construct
variable {env : Environment} {items : List Form}

abbrev tableOf (items : List Form) (env : Environment) : Eval Table :=
  Definition.table evalCell env.catalog.current env.config.autoKeyColumn items

lemma run_of_deftable (hhead : (Form.list items).head? = some "deftable") :
    Construct.run (.list items) env = defineTable items env.begin := by
  have hclean : cleanSlate env = .ok () env.begin := rfl
  rw [Construct.run, bind_of_ok hclean]
  simp only [hhead]

/-- A definition fails where its table does, or where that cannot be installed; otherwise the table
is installed there. -/
theorem defineTable_cases (items : List Form) (env : Environment) :
    (∃ e, defineTable items env = .error e ((tableOf items env).final env)) ∨
      ∃ t env₁ c new, tableOf items env env = .ok t env₁ ∧
        env₁.catalog.install t = .ok (c, new) ∧
          defineTable items env = .ok () { env₁ with catalog := c } := by
  have hget : (get : Eval Environment) env = .ok env env := rfl
  rw [defineTable, bind_of_ok hget]
  cases ht : tableOf items env env with
  | error e env₁ =>
    rw [final_of_error ht, bind_of_error ht]
    exact Or.inl ⟨e, rfl⟩
  | ok t env₁ =>
    rw [final_of_ok ht, bind_of_ok ht, Construct.install]
    cases hi : env₁.catalog.install t with
    | error e => exact Or.inl ⟨e, rfl⟩
    | ok r => exact Or.inr ⟨t, env₁, r.1, r.2, rfl, hi, rfl⟩

end Construct

/-- A definition none of whose cells calls the function that removes tables, in any environment that
a session comes to, whatever pins are held: if it fails, for whatever reason, all modules and tables
are as they were, and each as busy; if it succeeds, its table is a new one that stands in its slot,
at the place of the table that stood there before or else behind the others of its module, and this
is all that has changed in the catalog. -/
theorem deftable_all_or_nothing {env : Environment} (henv : env.Reachable) {items : List Form}
    (hhead : (Form.list items).head? = some "deftable")
    (hcells : ∀ cell ∈ Definition.evaluatedCells env.catalog.current env.config.autoKeyColumn items,
      cell.calls "undeftable" = false) :
    (∀ e env', Construct.run (.list items) env = .error e env' →
      env'.catalog.modules = env.catalog.modules ∧ env'.catalog.current = env.catalog.current ∧
        env'.catalog.tables = env.catalog.tables ∧
          ∀ t, env'.catalog.busy t = env.catalog.busy t) ∧
    ∀ env', Construct.run (.list items) env = .ok () env' →
      ∃ new env₁, Construct.tableOf items env env.begin = .ok new.table env₁ ∧
        (∀ t ∈ env.catalog.tables, t.serial < new.serial) ∧
          env.catalog.Gains env'.catalog new := by
  obtain ⟨others, hsound⟩ := henv.sound
  have hkeeps : Keeps (Environment.Holding env.catalog) (Construct.tableOf items env.begin) :=
    Environment.Invariant.table fun f hf => Environment.Holding.evalCell (hcells f hf)
  have hafter : ((Construct.tableOf items env.begin).final env.begin).Holding env.catalog :=
    hkeeps env.begin ⟨henv.frames, Catalog.EqUpToPins.pinBlind.refl _, fun _ => rfl⟩
  rw [Construct.run_of_deftable hhead]
  obtain ⟨e, hfails⟩ | ⟨t, env₁, c, new, ht, hi, hdefines⟩ :=
    Construct.defineTable_cases items env.begin
  · rw [hfails]
    refine ⟨fun e' env' h => ?_, fun env' h => (by cases h)⟩
    cases h
    have hmodules := hafter.catalog.modules_eq
    exact ⟨hmodules, hafter.catalog.current_eq, congrArg (List.flatMap Module.listing) hmodules,
      hafter.busy⟩
  · rw [hdefines]
    refine ⟨fun e' env' h => (by cases h), fun env' h => ?_⟩
    cases h
    rw [final_of_ok ht] at hafter
    have hmodules := hafter.catalog.modules_eq
    have hcurrent := hafter.catalog.current_eq
    obtain ⟨hnew, _⟩ := Catalog.install_eq_ok hi
    have hgains := (hsound.valid.congr hmodules hcurrent).gains_install hi
    refine ⟨new, env₁, ?_, fun u hu => ?_, hgains.congr hmodules hcurrent hafter.busy⟩
    · rw [hnew]
      exact ht
    · rw [hnew]
      change u.serial < env₁.catalog.nextSerial
      rw [hafter.catalog.nextSerial_eq]
      exact hsound.numbered.lt u (List.mem_append_right _ hu)

/-- Whether a text is a definition without calls that remove tables, which comes to a result with a
property. -/
def Construct.defines (env : Environment) (source : String)
    (p : EStateM.Result Error Environment Unit → Bool) : Bool :=
  match Form.readOne source with
  | .ok (.list items) =>
    (Form.list items).head? = some "deftable" &&
      (Definition.evaluatedCells env.catalog.current env.config.autoKeyColumn items).all
        (fun cell => !cell.calls "undeftable") && p (Construct.run (.list items) env)
  | _ => false

lemma Construct.exists_of_defines {env : Environment} {source : String}
    {p : EStateM.Result Error Environment Unit → Bool} (h : defines env source p = true) :
    ∃ items, Form.readOne source = .ok (.list items) ∧
      (Form.list items).head? = some "deftable" ∧
        (∀ cell ∈ Definition.evaluatedCells env.catalog.current env.config.autoKeyColumn items,
          cell.calls "undeftable" = false) ∧ p (Construct.run (.list items) env) = true := by
  unfold defines at h
  split at h
  · rename_i items hread
    simp only [Bool.and_eq_true, decide_eq_true_eq, List.all_eq_true, Bool.not_eq_true'] at h
    exact ⟨items, hread, h.1.1, h.1.2, h.2⟩
  · cases h

/-- The definition anew of a table that is pinned from outside is refused after a cell has queried
that table; the one of a table that is not pinned takes its place between two others. -/
theorem deftable_all_or_nothing_beside_pinned_table :
    let env := (Session.run .default
      [.build "(deftable accounts (id balance) (1 10) (2 20))",
        .build "(deftable owners (account) (1))", .build "(deftable banks (name) (a))",
        .take 0, .pin 0]).env
    ∃ refused accepted e env₁ env₂ new,
      Form.readOne "(deftable accounts (id)
        (=(do-for-this-row (?a accounts 2) TRUE ?a:balance)) (3))" = .ok (.list refused) ∧
      Form.readOne "(deftable owners (account)
        (=(do-for-this-row (?a accounts 2) TRUE ?a)))" = .ok (.list accepted) ∧
      Construct.run (.list refused) env = .error e env₁ ∧
        env₁.catalog.tables = env.catalog.tables ∧
      Construct.run (.list accepted) env = .ok () env₂ ∧ env.catalog.Gains env₂.catalog new ∧
        env₂.catalog.tables.map Installed.serial = [0, 3, 2] := by
  intro env
  have henv : env.Reachable := ⟨.default, _, [], rfl⟩
  obtain ⟨refused, hrefused, hhead, hcells, hp⟩ := @Construct.exists_of_defines env
    "(deftable accounts (id)
        (=(do-for-this-row (?a accounts 2) TRUE ?a:balance)) (3))"
    (fun r => match r with | .ok _ _ => false | .error _ _ => true) (by decide +kernel)
  obtain ⟨accepted, haccepted, hhead', hcells', hp'⟩ := @Construct.exists_of_defines env
    "(deftable owners (account)
        (=(do-for-this-row (?a accounts 2) TRUE ?a)))"
    (fun r => match r with
      | .ok _ env' => env'.catalog.tables.map Installed.serial = [0, 3, 2]
      | .error _ _ => false) (by decide +kernel)
  split at hp
  · cases hp
  · rename_i e env₁ hrun
    split at hp'
    · rename_i env₂ hrun'
      obtain ⟨_, _, htables, _⟩ := (deftable_all_or_nothing henv hhead hcells).1 e env₁ hrun
      obtain ⟨new, _, _, _, hgains⟩ := (deftable_all_or_nothing henv hhead' hcells').2 env₂ hrun'
      exact ⟨refused, accepted, e, env₁, env₂, new, hrefused, haccepted, hrun, htables, hrun',
        hgains, of_decide_eq_true hp'⟩
    · cases hp'

end KeyedTables
