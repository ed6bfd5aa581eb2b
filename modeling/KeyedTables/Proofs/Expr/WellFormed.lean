import KeyedTables.Proofs.Expr.Derivation

/-!
# Well-formed expressions

What resolution makes sure of. A call has as many arguments as its function admits, behind the
condition of an `if` stands `then`, and what `bind` binds is a variable. References go to the
binders in scope, and columns are stored by ordinal exactly if the table is known. A query has a key
exactly if its operator takes one, and a table that is known beforehand was found in the catalog.
-/
namespace KeyedTables

/-- What every form is resolved into, in a scope. -/
inductive Expr.WellFormed (c : Catalog) : Scope → Expr → Prop
  | const {scope : Scope} {v : Value} : WellFormed c scope (.const v)
  | localVar {scope : Scope} {x : String} : WellFormed c scope (.localVar x)
  | globalVar {scope : Scope} {x : String} : WellFormed c scope (.globalVar x)
  | call {scope : Scope} {function : Builtin} {args : List Expr} :
      function.arity.admits args.length = true →
        (function = .ifThen →
          ∃ condition body, args = condition :: .const (.symbol "then") :: body) →
          (function = .bind → ∀ a, args.head? = some a →
            (∃ x, a = .localVar x) ∨ ∃ x, a = .globalVar x) →
            (∀ a ∈ args, WellFormed c scope a) → WellFormed c scope (.call function args)
  | rowKey {scope : Scope} {depth : Nat} {b : Binder} :
      scope[depth]? = some b → WellFormed c scope (.rowKey depth)
  /-- A column of a query over a table that is not known. -/
  | columnByKey {scope : Scope} {depth : Nat} {b : Binder} {name : String} :
      scope[depth]? = some b → b.table = none →
        WellFormed c scope (.column depth (.symbol name) none)
  /-- A column of a query over a known table. -/
  | columnByOrdinal {scope : Scope} {depth : Nat} {b : Binder} {name : String} {t : Table}
      {i : Nat} : scope[depth]? = some b → b.table = some t →
        t.columnOrdinal? (.symbol name) = some i →
          WellFormed c scope (.column depth (.symbol name) (some i))
  | query {scope : Scope} {op : Operator} {rowVariable : String} {target : Target}
      {key : Option Expr} {test : Expr} {action : Option Expr} :
      key.isSome = op.takesKey → (∀ t, target = .known t → ∃ name, c.find name = .ok t) →
        (∀ e, target = .named e → WellFormed c scope e) →
          (∀ k, key = some k → WellFormed c scope k) →
            WellFormed c (⟨rowVariable, target.table?, op⟩ :: scope) test →
              (∀ a, action = some a →
                WellFormed c (⟨rowVariable, target.table?, op⟩ :: scope) a) →
                  WellFormed c scope (.query op rowVariable target key test action)

namespace Resolution
variable {c : Catalog} {scope : Scope}

lemma wellFormed_resolveVar {name : String} {e : Expr} (h : scope.resolveVar name = .ok e) :
    Expr.WellFormed c scope e := by
  unfold Scope.resolveVar at h
  split at h
  · rename_i hb
    cases h
    exact .rowKey (getElem?_of_find? hb)
  · split at h
    · cases h
      exact .localVar
    · split at h
      · cases h
        exact .localVar
      · rename_i hb
        split at h
        · rename_i ht
          cases h
          exact .columnByKey (getElem?_of_find? hb) ht
        · rename_i ht
          split at h
          · rename_i hcol
            cases h
            exact .columnByOrdinal (getElem?_of_find? hb) ht hcol
          · cases h

theorem variable_of_bindTargetOf {f : Form} {e : Expr} (h : bindTargetOf scope f = .ok e) :
    (∃ x, e = .localVar x) ∨ ∃ x, e = .globalVar x := by
  unfold bindTargetOf at h
  split at h
  · split at h
    · cases h
    · cases h
      exact Or.inl ⟨_, rfl⟩
  · cases h
    exact Or.inr ⟨_, rfl⟩
  · cases h

/-- The symbol behind a condition stays where it is. -/
theorem then_of_resolves {args : List Form} {es : List Expr} (hthen : checkThen args = .ok ())
    (hlength : args.length = es.length) (h : ∀ p ∈ args.zip es, Resolves c scope p.1 p.2) :
    ∃ condition body, es = condition :: .const (.symbol "then") :: body := by
  obtain ⟨condition, body, rfl⟩ := eq_then_of_checkThen hthen
  match es, hlength with
  | e :: mark :: es, _ =>
    have hmark := h (.atom (.symbol "then"), mark) (by simp)
    cases hmark with
    | atom => exact ⟨e, es, rfl⟩
    | call hf => cases hf
    | bind hf => cases hf
    | query hf => cases hf

lemma wellFormed_of_zip {fs : List Form} {es : List Expr} (hlength : fs.length = es.length)
    (h : ∀ p ∈ fs.zip es, Expr.WellFormed c scope p.2) : ∀ e ∈ es, Expr.WellFormed c scope e := by
  intro e he
  obtain ⟨f, hf⟩ := exists_mem_zip_of_mem_right hlength he
  exact h (f, e) hf

lemma wellFormed_of_resolves {f : Form} {e : Expr} (h : Resolves c scope f e) :
    Expr.WellFormed c scope e := by
  induction h with
  | atom => exact .const
  | globalVar => exact .globalVar
  | var h => exact wellFormed_resolveVar h
  | call _ _ _ hbind harity hthen hlength hargs ih =>
    rw [hlength] at harity
    exact .call harity (fun hif => then_of_resolves (hthen hif) hlength hargs)
      (fun heq => absurd heq hbind) (wellFormed_of_zip hlength ih)
  | bind _ harity ht hlength _ ih =>
    have hvariable := variable_of_bindTargetOf ht
    rw [List.length_cons, hlength, ← List.length_cons] at harity
    refine .call harity (fun heq => by cases heq) (fun _ a ha => ?_)
      (List.forall_mem_cons.2 ⟨?_, wellFormed_of_zip hlength ih⟩)
    · cases ha
      exact hvariable
    · obtain ⟨x, rfl⟩ | ⟨x, rfl⟩ := hvariable
      · exact .localVar
      · exact .globalVar
  | query _ _ _ hkeyForm hkey hknown _ _ _ _ hlength _ ihtarget ihkey ihtest ih =>
    have hactions := wellFormed_of_zip hlength ih
    refine .query hkey (fun u hu => ?_) ihtarget (fun e he => ?_) ihtest fun a ha => ?_
    · obtain ⟨name, _, hfind⟩ := hknown u hu
      exact ⟨name, hfind⟩
    · obtain ⟨k, hk⟩ := exists_key hkeyForm hkey he
      exact ihkey k e hk he
    · obtain ha | rfl := Expr.mem_or_eq_progn_of_actionOf ha
      · exact hactions a ha
      · exact .call (Arity.admits_atLeast.2 (Nat.zero_le _)) (fun heq => by cases heq)
          (fun heq => by cases heq) hactions

theorem wellFormed_form (f : Form) {scope : Scope} {e : Expr}
    (h : Expr.ofForm c scope f = .ok e) : Expr.WellFormed c scope e :=
  wellFormed_of_resolves (resolves_form f h)

end Resolution

end KeyedTables
