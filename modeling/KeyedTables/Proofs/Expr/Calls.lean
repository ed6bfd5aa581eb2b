import KeyedTables.Proofs.Expr.Parts
import KeyedTables.Proofs.Expr.WellFormed

/-!
# Calls in forms

Whether a function is called somewhere in a form can be told from its text: some list in it begins
with the name of the function. A form in which the function that removes tables is not called stands
for an expression that removes none, whatever catalog it is resolved in.
-/
namespace KeyedTables

namespace Form

mutual

/-- Whether a list in the form begins with the name, at any depth. -/
def calls (name : String) : Form → Bool
  | atom _ | var _ | globalVar _ => false
  | list fs => (list fs).head? = some name || anyCalls name fs
  | immediate fs => (list fs).head? = some name || anyCalls name fs

def anyCalls (name : String) : List Form → Bool
  | [] => false
  | f :: fs => calls name f || anyCalls name fs

end

lemma anyCalls_eq_any (name : String) (fs : List Form) :
    anyCalls name fs = fs.any (calls name) := by
  induction fs with
  | nil => rfl
  | cons f fs ih => rw [anyCalls, ih, List.any_cons]

lemma calls_eq_false_of_mem {name : String} {fs : List Form} (h : (list fs).calls name = false)
    {f : Form} (hf : f ∈ fs) : f.calls name = false := by
  rw [calls, anyCalls_eq_any, Bool.or_eq_false_iff] at h
  simpa using List.any_eq_false.1 h.2 f hf

lemma calls_of_items? {name : String} {f : Form} {items : List Form}
    (h : f.items? = some items) : f.calls name = (list items).calls name := by
  cases f with
  | list _ =>
    cases h
    rfl
  | immediate _ =>
    cases h
    rw [calls, calls]
  | atom _ | var _ | globalVar _ => cases h

/-- What a list begins with that does not call a function. -/
theorem ne_of_calls_eq_false {name other : String} {head : Form} {args : List Form}
    (h : (list (head :: args)).calls name = false) (hhead : head.symbol? = some other) :
    other ≠ name := by
  rintro rfl
  rw [calls, Bool.or_eq_false_iff] at h
  exact of_decide_eq_false h.1 hhead

end Form

namespace Resolution
variable {c : Catalog} {scope : Scope}

abbrev KeepsTables (f : Form) : Prop := f.calls Builtin.undefineTable.name = false

lemma not_removes_resolveVar {name : String} {e : Expr} (h : scope.resolveVar name = .ok e) :
    e.removes = false := by
  unfold Scope.resolveVar at h
  split at h
  · cases h
    rfl
  · split at h
    · cases h
      rfl
    · split at h
      · cases h
        rfl
      · split at h
        · cases h
          rfl
        · split at h
          · cases h
            rfl
          · cases h

lemma not_removes_bindTargetOf {f : Form} {e : Expr} (h : bindTargetOf scope f = .ok e) :
    e.removes = false := by
  obtain ⟨x, rfl⟩ | ⟨x, rfl⟩ := variable_of_bindTargetOf h
  · rfl
  · rfl

lemma not_removes_of_zip {fs : List Form} {es : List Expr} (hlength : fs.length = es.length)
    (hfs : ∀ f ∈ fs, KeepsTables f)
    (h : ∀ p ∈ fs.zip es, KeepsTables p.1 → p.2.removes = false) : ∀ e ∈ es, e.removes = false := by
  intro e he
  obtain ⟨f, hf⟩ := exists_mem_zip_of_mem_right hlength he
  exact h (f, e) hf (hfs f (List.of_mem_zip hf).1)

lemma not_removes_of_resolves {f : Form} {e : Expr} (h : Resolves c scope f e)
    (hkeeps : KeepsTables f) : e.removes = false := by
  induction h with
  | atom => rfl
  | globalVar => rfl
  | var h => exact not_removes_resolveVar h
  | call hf _ hfunction _ _ _ hlength _ ih =>
    rw [KeepsTables, Form.calls_of_items? hf] at hkeeps
    refine Expr.removes_call_eq_false ?_ (not_removes_of_zip hlength (fun g hg => ?_) ih)
    · rintro rfl
      exact Form.ne_of_calls_eq_false hkeeps rfl (Builtin.name_of_ofName? hfunction).symm
    · exact Form.calls_eq_false_of_mem hkeeps (List.mem_cons_of_mem _ hg)
  | bind hf _ ht hlength _ ih =>
    rw [KeepsTables, Form.calls_of_items? hf] at hkeeps
    have hvalues := not_removes_of_zip hlength (fun g hg => Form.calls_eq_false_of_mem hkeeps
      (List.mem_cons_of_mem _ (List.mem_cons_of_mem _ hg))) ih
    exact Expr.removes_call_eq_false (by decide)
      (List.forall_mem_cons.2 ⟨not_removes_bindTargetOf ht, hvalues⟩)
  | query hf _ _ hkeyForm hkey _ _ _ _ _ hlength _ ihtarget ihkey ihtest ih =>
    rw [KeepsTables, Form.calls_of_items? hf] at hkeeps
    obtain ⟨_, hargs⟩ := List.forall_mem_cons.1 fun f hmem => Form.calls_eq_false_of_mem hkeeps hmem
    obtain ⟨hlist, hbody⟩ := List.forall_mem_cons.1 hargs
    obtain ⟨htest, hactions⟩ := List.forall_mem_cons.1 hbody
    have hbinding := fun f hmem => Form.calls_eq_false_of_mem hlist (f := f) hmem
    have hes := not_removes_of_zip hlength hactions ih
    refine Expr.removes_query_eq_false (fun e he => ihtarget e he (hbinding _ (by simp)))
      (fun e he => ?_) (ihtest htest) fun a ha => ?_
    · obtain ⟨k, hk⟩ := exists_key hkeyForm hkey he
      exact ihkey k e hk he (hbinding k (by simp [hk]))
    · obtain ha | rfl := Expr.mem_or_eq_progn_of_actionOf ha
      · exact hes a ha
      · exact Expr.removes_call_eq_false (by decide) hes

theorem not_removes_form (f : Form) {scope : Scope} {e : Expr} (hf : KeepsTables f)
    (h : Expr.ofForm c scope f = .ok e) : e.removes = false :=
  not_removes_of_resolves (resolves_form f h) hf

end Resolution

end KeyedTables
