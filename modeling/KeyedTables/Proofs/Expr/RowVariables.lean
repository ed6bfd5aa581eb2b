import KeyedTables.Proofs.Expr.Refusals

/-!
# Row variables

In the scope of a row variable neither it nor a column of it can be bound, and what is read under
such a name is the row, never a local variable. Outside of this scope, which the table and the key
of the query belong to, the name is like any other.
-/
namespace KeyedTables

/-- No local variable of the expression, be it read or bound, has a row variable in front in whose
scope it stands; those around the expression are given. -/
def Expr.Apart (outer : List String) (e : Expr) : Prop :=
  ∀ rows n, e.Within rows (.localVar n) → Scope.rowPart n ∉ rows ++ outer

namespace Expr
variable {outer : List String}

lemma apart_of_childless {e : Expr} (hchild : ∀ inner a, ¬ e.Child inner a)
    (hlocal : ∀ n, e ≠ .localVar n) : Apart outer e := by
  intro rows n hn
  cases hn with
  | self => exact absurd rfl (hlocal n)
  | child h _ => exact absurd h (hchild _ _)

lemma apart_localVar {n : String} (h : Scope.rowPart n ∉ outer) : Apart outer (.localVar n) := by
  intro rows x hx
  cases hx with
  | self => exact h
  | child hchild _ => cases hchild

lemma apart_call {function : Builtin} {args : List Expr} (h : ∀ a ∈ args, Apart outer a) :
    Apart outer (.call function args) := by
  intro rows n hn
  cases hn with
  | child hchild hn =>
    cases hchild with
    | argument hmem =>
      rw [List.append_nil]
      exact h _ hmem _ n hn

lemma apart_query {op : Operator} {v : String} {target : Target} {key action : Option Expr}
    {test : Expr} (htarget : ∀ e, target = .named e → Apart outer e)
    (hkey : ∀ k, key = some k → Apart outer k) (htest : Apart (v :: outer) test)
    (haction : ∀ a, action = some a → Apart (v :: outer) a) :
    Apart outer (.query op v target key test action) := by
  intro rows n hn
  cases hn with
  | child hchild hn =>
    cases hchild with
    | table =>
      rw [List.append_nil]
      exact htarget _ rfl _ n hn
    | key =>
      rw [List.append_nil]
      exact hkey _ rfl _ n hn
    | test =>
      rw [List.append_assoc]
      exact htest _ n hn
    | action =>
      rw [List.append_assoc]
      exact haction _ rfl _ n hn

end Expr

namespace Resolution
variable {c : Catalog} {scope : Scope} {f g : Form} {e : Expr}

lemma apart_resolveVar {n : String} (h : scope.resolveVar n = .ok e) :
    e.Apart scope.rowVariables := by
  obtain ⟨rfl, hn⟩ | ⟨_, rfl⟩ | ⟨_, _, _, rfl⟩ := Scope.resolveVar_eq_ok h
  · exact Expr.apart_localVar hn
  all_goals exact Expr.apart_of_childless nofun nofun

lemma apart_bindTargetOf (h : bindTargetOf scope f = .ok e) : e.Apart scope.rowVariables := by
  unfold bindTargetOf at h
  split at h
  · split at h
    · cases h
    · rename_i hok
      cases h
      exact Expr.apart_localVar (Scope.bindable_eq_ok_iff.1 hok)
  · cases h
    exact Expr.apart_of_childless nofun nofun
  · cases h

lemma apart_of_zip {outer : List String} {fs : List Form} {es : List Expr}
    (hlength : fs.length = es.length) (h : ∀ p ∈ fs.zip es, p.2.Apart outer) :
    ∀ e ∈ es, e.Apart outer := by
  intro e he
  obtain ⟨f, hf⟩ := exists_mem_zip_of_mem_right hlength he
  exact h (f, e) hf

/-- What a form is resolved into keeps its local variables apart from the row variables. -/
theorem apart_of_resolves (h : Resolves c scope f e) : e.Apart scope.rowVariables := by
  induction h with
  | atom | globalVar => exact Expr.apart_of_childless nofun nofun
  | var h => exact apart_resolveVar h
  | call _ _ _ _ _ _ hlength _ ih => exact Expr.apart_call (apart_of_zip hlength ih)
  | bind _ _ ht hlength _ ih =>
    exact Expr.apart_call (List.forall_mem_cons.2 ⟨apart_bindTargetOf ht, apart_of_zip hlength ih⟩)
  | query _ _ _ hkeyForm hkey _ _ _ _ _ hlength _ ihtarget ihkey ihtest ih =>
    have hactions := apart_of_zip hlength ih
    refine Expr.apart_query ihtarget (fun e he => ?_) ihtest fun a ha => ?_
    · obtain ⟨k, hk⟩ := exists_key hkeyForm hkey he
      exact ihkey k e hk he
    · obtain ha | rfl := Expr.mem_or_eq_progn_of_actionOf ha
      · exact hactions a ha
      · exact Expr.apart_call hactions

end Resolution

/-- A form in which a row variable or a column of one is bound, wherever this stands in the test or
in an action of the query, is refused. In what any other form is resolved into, no local variable,
read or bound, has a row variable in front in whose scope it stands. The table and the key of a query
are not in the scope of its row variable: a name that no row variable around is in front of is a
local variable there too, and binding it is never refused. -/
theorem row_variables_are_not_rebound (c : Catalog) (f : Form) :
    (∀ rows g n v, f.Within rows g → g.Binds n → v ∈ rows →
      (n = v ∨ ∃ column, n = v ++ ":" ++ column) → ∃ err, Expr.ofForm c [] f = .error err) ∧
    (∀ e, Expr.ofForm c [] f = .ok e →
      (∀ rows n, e.Within rows (.localVar n) → Scope.rowPart n ∉ rows) ∧
        ∀ rows n, f.Within rows (.var n) → Scope.rowPart n ∉ rows → e.Within rows (.localVar n)) ∧
    ∀ op n, Expr.ofForm c [] f = .error (.rowVariableRebind op n) →
      ∃ rows g, f.Within rows g ∧ g.Binds n ∧ Scope.rowPart n ∈ rows := by
  refine ⟨fun rows g n v hg hbinds hv hn => ?_, fun e he => ?_, fun op n h => ?_⟩
  · cases he : Expr.ofForm c [] f with
    | error err => exact ⟨err, rfl⟩
    | ok e =>
      obtain ⟨scope, e', hg', hscope, hplain, _⟩ :=
        Resolution.resolves_within (Resolution.resolves_form f he) hg
      have hnotMem := Resolution.not_mem_of_binds hg' hbinds
      have hrow : Scope.rowPart n = v := by
        obtain rfl | ⟨column, rfl⟩ := hn
        · exact Scope.rowPart_of_plain (hplain _ hv)
        · exact Scope.rowPart_column (hplain v hv) column
      rw [hrow, hscope, Scope.rowVariables_nil, List.append_nil] at hnotMem
      exact absurd hv hnotMem
  · have hresolves := Resolution.resolves_form f he
    refine ⟨fun rows n hn => ?_, fun rows n hn hnotMem => ?_⟩
    · have hapart := Resolution.apart_of_resolves hresolves rows n hn
      rwa [Scope.rowVariables_nil, List.append_nil] at hapart
    · obtain ⟨scope, e', hvar, hscope, hplain, hwithin⟩ :=
        Resolution.resolves_within hresolves hn
      rw [Scope.rowVariables_nil, List.append_nil] at hscope
      cases hvar with
      | var hvar =>
        rw [← hscope] at hplain hnotMem
        rw [Scope.resolveVar_of_not_mem hplain hnotMem] at hvar
        cases hvar
        exact hwithin
      | call hf | bind hf | query hf => cases hf
  · obtain ⟨rows, g, hg, hbinds, hmem⟩ := Resolution.exists_within_of_rebind h
    rw [Scope.rowVariables_nil, List.append_nil] at hmem
    exact ⟨rows, g, hg, hbinds, hmem⟩

example : Resolution.resolvesTo .initial
    "(do-for-this-row (?r ?t (bind ?r 1)) TRUE (printout t ?r:k))" (fun _ => true) = true := by
  decide +kernel
example : Resolution.resolvesTo .initial
    "(do-for-this-row (?r ?t 1) TRUE (if ?c then (bind ?r:k 1)))" (fun _ => true) = false := by
  decide +kernel

end KeyedTables
