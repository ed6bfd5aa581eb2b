import KeyedTables.Proofs.Evaluation.Failure
import KeyedTables.Proofs.Expr.Positions

/-!
# Refused bindings

Why a form is refused for binding a row variable: somewhere in it, in expression position, there is
a call of `bind` for a variable that has a row variable in front in whose scope the call stands.
-/
namespace KeyedTables.Resolution
variable {c : Catalog} {scope : Scope} {f : Form}

lemma exists_mem_of_ofForms {fs : List Form} {err : Error}
    (h : Expr.ofForms c scope fs = .error err) :
    ∃ g ∈ fs, Expr.ofForm c scope g = .error err := by
  induction fs with
  | nil =>
    rw [Expr.ofForms] at h
    cases h
  | cons f fs ih =>
    rw [Expr.ofForms] at h
    obtain hf | ⟨e, _, h⟩ := bind_eq_error h
    · exact ⟨f, List.mem_cons_self, hf⟩
    · obtain hfs | ⟨es, _, h⟩ := bind_eq_error h
      · obtain ⟨g, hg, hrefused⟩ := ih hfs
        exact ⟨g, List.mem_cons_of_mem _ hg, hrefused⟩
      · cases h

lemma exists_mem_of_ofBody {body : List Form} {err : Error}
    (h : Expr.ofBody c scope body = .error err) :
    ∃ g ∈ body, Expr.ofForm c scope g = .error err := by
  unfold Expr.ofBody at h
  split at h
  · cases h
  · obtain htest | ⟨_, _, h⟩ := bind_eq_error h
    · exact ⟨_, List.mem_cons_self, htest⟩
    · cases h
  · obtain htest | ⟨_, _, h⟩ := bind_eq_error h
    · exact ⟨_, List.mem_cons_self, htest⟩
    · obtain haction | ⟨_, _, h⟩ := bind_eq_error h
      · exact ⟨_, List.mem_cons_of_mem _ List.mem_cons_self, haction⟩
      · cases h
  · obtain htest | ⟨_, _, h⟩ := bind_eq_error h
    · exact ⟨_, List.mem_cons_self, htest⟩
    · obtain hactions | ⟨_, _, h⟩ := bind_eq_error h
      · obtain ⟨g, hg, hrefused⟩ := exists_mem_of_ofForms hactions
        exact ⟨g, List.mem_cons_of_mem _ hg, hrefused⟩
      · cases h

section Rebinding
variable {op : Operator} {n : String}

lemma not_rebind_ofSymbol {op' : Operator} {name : String} :
    Target.ofSymbol c op' name ≠ .error (.rowVariableRebind op n) := by
  intro h
  unfold Target.ofSymbol at h
  split at h
  · cases h
  · cases h
  · rename_i hfind
    cases h
    cases Catalog.isOrdinary_find hfind

lemma rebind_of_ofTarget {op' : Operator} {t : Form}
    (h : Expr.ofTarget c scope op' t = .error (.rowVariableRebind op n)) :
    t.atom? = none ∧ Expr.ofForm c scope t = .error (.rowVariableRebind op n) := by
  cases ht : t.atom? with
  | some a =>
    rw [Form.atom?_eq_some_iff.1 ht] at h
    cases a with
    | symbol name =>
      rw [Expr.ofTarget] at h
      exact absurd h not_rebind_ofSymbol
    | string _ | integer _ | float _ => cases h
  | none =>
    rw [ofTarget_eq ht] at h
    obtain h | ⟨_, _, h⟩ := bind_eq_error h
    · exact ⟨rfl, h⟩
    · cases h

lemma not_rebind_rowVariableOf {op' : Operator} {v : Form} :
    rowVariableOf op' v ≠ .error (.rowVariableRebind op n) := by
  unfold rowVariableOf
  split
  · split <;> simp
  · simp

lemma not_rebind_checkBody {op' : Operator} {found : Nat} :
    checkBody op' found ≠ .error (.rowVariableRebind op n) := by
  unfold checkBody
  split <;> simp

lemma not_rebind_checkArity {function : Builtin} {found : Nat} :
    checkArity function found ≠ .error (.rowVariableRebind op n) := by
  unfold checkArity
  split <;> simp

lemma not_rebind_checkThen {args : List Form} :
    checkThen args ≠ .error (.rowVariableRebind op n) := by
  unfold checkThen
  split
  · split <;> simp
  · simp

/-- A target is refused for a variable that is bound in it only if it is one of a row in scope. -/
theorem rebind_of_bindTargetOf {target : Form}
    (h : bindTargetOf scope target = .error (.rowVariableRebind op n)) :
    target = .var n ∧ Scope.rowPart n ∈ scope.rowVariables := by
  unfold bindTargetOf at h
  split at h
  · split at h
    · rename_i x _ hx
      cases h
      unfold Scope.bindable at hx
      split at hx
      · rename_i hfind
        cases hx
        refine ⟨rfl, ?_⟩
        by_contra hmem
        rw [← Scope.find?_eq_none_iff, hfind] at hmem
        cases hmem
      · cases hx
    · cases h
  · cases h
  · cases h

/-- A binding is refused for a variable that is bound in its table or in its key. -/
theorem rebind_of_ofBinding {op' : Operator} {binding : List Form}
    (h : Expr.ofBinding c scope op' binding = .error (.rowVariableRebind op n)) :
    ∃ v t keys, binding = v :: t :: keys ∧
      ((t.atom? = none ∧ Expr.ofForm c scope t = .error (.rowVariableRebind op n)) ∨
        ∃ k, keys = [k] ∧ Expr.ofForm c scope k = .error (.rowVariableRebind op n)) := by
  unfold Expr.ofBinding at h
  split at h
  · split at h
    · cases h
    · rename_i v t _
      obtain h | ⟨_, _, h⟩ := bind_eq_error h
      · exact absurd h not_rebind_rowVariableOf
      · obtain h | ⟨_, _, h⟩ := bind_eq_error h
        · exact ⟨v, t, [], rfl, Or.inl (rebind_of_ofTarget h)⟩
        · cases h
  · split at h
    · rename_i v t k _
      obtain h | ⟨_, _, h⟩ := bind_eq_error h
      · exact absurd h not_rebind_rowVariableOf
      · obtain h | ⟨_, _, h⟩ := bind_eq_error h
        · exact ⟨v, t, [k], rfl, Or.inl (rebind_of_ofTarget h)⟩
        · obtain h | ⟨_, _, h⟩ := bind_eq_error h
          · exact ⟨v, t, [k], rfl, Or.inr ⟨k, rfl, h⟩⟩
          · cases h
    · cases h
  · cases h

/-- Where the refusal of a form comes from: it binds a variable itself, or one of the forms in
expression position in it is refused. -/
def Rebinds (c : Catalog) (op : Operator) (n : String) (scope : Scope) (f : Form) : Prop :=
  (f.Binds n ∧ Scope.rowPart n ∈ scope.rowVariables) ∨
    ∃ rows g scope', f.Child rows g ∧ scope'.rowVariables = rows ++ scope.rowVariables ∧
      Expr.ofForm c scope' g = .error (.rowVariableRebind op n)

lemma rebinds_of_ofQuery {op' : Operator} {name : String} {args : List Form}
    (hop : Operator.ofName? name = some op') (hf : f.items? = some (.atom (.symbol name) :: args))
    (h : Expr.ofQuery c scope op' args = .error (.rowVariableRebind op n)) :
    Rebinds c op n scope f := by
  unfold Expr.ofQuery at h
  split at h
  · cases h
  · rename_i binding body
    obtain h | ⟨⟨v, target, key⟩, hbinding, h⟩ := bind_eq_error h
    · obtain ⟨v, t, keys, rfl, ⟨ht, hrefused⟩ | ⟨k, rfl, hrefused⟩⟩ := rebind_of_ofBinding h
      · exact Or.inr ⟨[], t, scope, .table hf hop ht, rfl, hrefused⟩
      · exact Or.inr ⟨[], k, scope, .key hf hop (List.mem_singleton.2 rfl), rfl, hrefused⟩
    · obtain h | ⟨_, _, h⟩ := bind_eq_error h
      · exact absurd h not_rebind_checkBody
      · obtain h | ⟨_, _, h⟩ := bind_eq_error h
        · obtain ⟨g, hg, hrefused⟩ := exists_mem_of_ofBody h
          obtain ⟨w, t, hv, _, _, hshape⟩ := ofBinding_eq_ok hbinding
          obtain ⟨rfl, _⟩ := variable_of_rowVariableOf hv
          obtain ⟨rest, rfl⟩ : ∃ rest, binding = .var v :: rest := by
            obtain ⟨rfl, _⟩ | ⟨_, _, rfl, _⟩ := hshape
            · exact ⟨_, rfl⟩
            · exact ⟨_, rfl⟩
          exact Or.inr ⟨[v], g, _, .body hf hop hg, rfl, hrefused⟩
        · cases h
  · cases h

lemma rebinds_of_ofBind {args : List Form}
    (hf : f.items? = some (.atom (.symbol Builtin.bind.name) :: args))
    (h : Expr.ofBind c scope args = .error (.rowVariableRebind op n)) : Rebinds c op n scope f := by
  unfold Expr.ofBind at h
  split at h
  · cases h
  · rename_i target values
    obtain h | ⟨_, _, h⟩ := bind_eq_error h
    · obtain ⟨rfl, hmem⟩ := rebind_of_bindTargetOf h
      exact Or.inl ⟨⟨values, hf⟩, hmem⟩
    · obtain h | ⟨_, _, h⟩ := bind_eq_error h
      · obtain ⟨g, hg, h⟩ := exists_mem_of_ofForms h
        exact Or.inr ⟨[], g, scope, .value hf hg, rfl, h⟩
      · cases h

lemma rebinds_of_ofCall {items : List Form} (hf : f.items? = some items)
    (h : Expr.ofCall c scope items = .error (.rowVariableRebind op n)) :
    Rebinds c op n scope f := by
  unfold Expr.ofCall at h
  split at h
  · cases h
  · rename_i head args
    split at h
    · cases h
    · rename_i name hname
      rw [Form.symbol?_eq_some_iff.1 hname] at hf
      split at h
      · rename_i op' hop
        exact rebinds_of_ofQuery hop hf h
      · rename_i hop
        split at h
        · cases h
        · rename_i function hfunction
          have hname := Builtin.name_of_ofName? hfunction
          obtain h | ⟨_, _, h⟩ := bind_eq_error h
          · exact absurd h not_rebind_checkArity
          · have hargs : function ≠ .bind →
                Expr.ofForms c scope args = .error (.rowVariableRebind op n) →
                  Rebinds c op n scope f := fun hne h => by
              obtain ⟨g, hg, h⟩ := exists_mem_of_ofForms h
              refine Or.inr ⟨[], g, scope, .argument hf (fun name' heq => ?_) hg, rfl, h⟩
              cases heq
              refine ⟨hop, fun heq => hne ?_⟩
              rw [heq, Builtin.ofName?_name] at hfunction
              exact (Option.some.inj hfunction).symm
            split at h
            · rw [← hname] at hf
              exact rebinds_of_ofBind hf h
            · obtain h | ⟨_, _, h⟩ := bind_eq_error h
              · exact absurd h not_rebind_checkThen
              · obtain h | ⟨_, _, h⟩ := bind_eq_error h
                · exact hargs (by decide) h
                · cases h
            · rename_i hbind _
              obtain h | ⟨_, _, h⟩ := bind_eq_error h
              · exact hargs hbind h
              · cases h

lemma rebinds_of_ofForm (h : Expr.ofForm c scope f = .error (.rowVariableRebind op n)) :
    Rebinds c op n scope f := by
  cases f with
  | atom a =>
    rw [Expr.ofForm] at h
    cases h
  | globalVar x =>
    rw [Expr.ofForm] at h
    cases h
  | var x =>
    rw [Expr.ofForm] at h
    unfold Scope.resolveVar at h
    repeat' split at h
    all_goals cases h
  | list items =>
    rw [Expr.ofForm] at h
    exact rebinds_of_ofCall rfl h
  | immediate items =>
    rw [Expr.ofForm] at h
    exact rebinds_of_ofCall rfl h

/-- A form is refused for binding a row variable only if somewhere in it one is bound that is in
scope there. -/
theorem exists_within_of_rebind {scope : Scope} {f : Form}
    (h : Expr.ofForm c scope f = .error (.rowVariableRebind op n)) :
    ∃ rows g, f.Within rows g ∧ g.Binds n ∧ Scope.rowPart n ∈ rows ++ scope.rowVariables := by
  obtain ⟨hbinds, hmem⟩ | ⟨inner, g, scope', hchild, hscope, hrefused⟩ := rebinds_of_ofForm h
  · exact ⟨[], f, .self f, hbinds, hmem⟩
  · -- the scope of the inner form has grown by the row variables passed on the way to it
    have hsmaller := hchild.sizeOf_lt
    obtain ⟨rows, x, hx, hbinds, hmem⟩ := exists_within_of_rebind hrefused
    refine ⟨rows ++ inner, x, .child hchild hx, hbinds, ?_⟩
    rwa [List.append_assoc, ← hscope]
termination_by sizeOf f

end Rebinding

end KeyedTables.Resolution
