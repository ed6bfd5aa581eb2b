import KeyedTables.Proofs.Evaluation.Course

/-!
# What evaluation does to the catalog

Evaluation takes and releases pins, and removes tables if the expression asks for it; apart from
that it leaves the catalog alone. So a relation between catalogs that does not look at pins and
composes holds from the catalog an evaluation starts with to every one it passes through, as long as
the removal of a table is such a step or no table is removed.
-/
namespace KeyedTables

namespace Catalog
variable {c c' c'' : Catalog}

/-- A relation between catalogs that does not look at pins and composes. -/
structure PinBlind (K : Catalog → Catalog → Prop) : Prop where
  pins (c : Catalog) (pins : List Nat) : K c { c with pins }
  trans {c c' c'' : Catalog} : K c c' → K c' c'' → K c c''

def EqUpToPins (c c' : Catalog) : Prop := c' = { c with pins := c'.pins }

theorem EqUpToPins.modules_eq (h : EqUpToPins c c') : c'.modules = c.modules := by rw [h]

theorem EqUpToPins.current_eq (h : EqUpToPins c c') : c'.current = c.current := by rw [h]

theorem EqUpToPins.nextSerial_eq (h : EqUpToPins c c') : c'.nextSerial = c.nextSerial := by rw [h]

theorem EqUpToPins.pinBlind : PinBlind EqUpToPins where
  pins _ _ := rfl
  trans h h' := by
    rw [EqUpToPins, h', h]

end Catalog

namespace Catalog.PinBlind
variable {K : Catalog → Catalog → Prop} {env : Environment} {α : Type}

theorem refl (hK : PinBlind K) (c : Catalog) : K c c := hK.pins c c.pins

lemma of_eq (hK : PinBlind K) {c c' : Catalog} (h : c' = c) : K c c' := by
  rw [h]
  exact hK.refl c

lemma popFrame (hK : PinBlind K) (env : Environment) : K env.catalog env.popFrame.catalog := by
  unfold Environment.popFrame
  split
  · exact hK.refl _
  · exact hK.pins _ _

/-- The relation holds between the catalogs an action starts with and those it comes to. -/
abbrev Follows (K : Catalog → Catalog → Prop) {α : Type} (m : Action α) (env : Environment) :
    Prop :=
  Along (fun env s => K env.catalog s.catalog) (fun env s => K env.catalog s.catalog) m env

lemma course (hK : PinBlind K) :
    BaseCourse (fun env s => K env.catalog s.catalog) (fun env s => K env.catalog s.catalog) where
  refl _ := ⟨hK.refl _, hK.refl _⟩
  last_trans := hK.trans
  moment_trans h h' := hK.trans h.moment h'
  write _ hc _ := ⟨hK.of_eq hc, hK.of_eq hc⟩
  abort env := ⟨hK.of_eq (by simp), hK.of_eq (by simp)⟩

lemma inFrame (hK : PinBlind K) {f : Frame} {m : Action α} (h : Follows K m (env.pushFrame f)) :
    Follows K (Query.inFrame f m) env := by
  have hpush : K env.catalog (env.pushFrame f).catalog := hK.pins _ _
  have hpop : K env.catalog (m.final (env.pushFrame f)).popFrame.catalog :=
    hK.trans (hK.trans hpush h.last) (hK.popFrame _)
  constructor
  · rw [final_inFrame]
    exact hpop
  · intro s hs
    obtain rfl | hs | rfl := mem_trace_inFrame.1 hs
    · exact hK.refl _
    · exact hK.trans hpush (h.moments s hs)
    · exact hpop

lemma congruence (hK : PinBlind K) :
    EvaluationCongruence fun _ m _ => ∀ env, Follows K m env where
  toBaseCongruence := hK.course.congruence.toBaseCongruence
  rowKey := hK.course.congruence.rowKey
  column := hK.course.congruence.column
  query := by
    intro op rowVariable target key body htarget hkey htest haction env
    have hC := hK.course
    refine hC.bind (htarget env) fun t env₁ _ _ => Course.look ?_
    split
    · exact hC.fail _ env₁
    · refine hC.bind (hC.congruence.startRow hkey (Or.inr fun _ _ => trivial) t.table env₁)
        fun start env₂ _ _ => hK.inFrame ?_
      exact hC.visits (fun _ _ => ⟨hK.of_eq (by simp), hK.of_eq (by simp)⟩) htest haction op _ _ _

/-- Evaluation leads to catalogs in the relation if removals do. -/
theorem eval (hK : PinBlind K)
    (hremove : ∀ {c c' : Catalog} {name : String}, c.remove name = .ok c' → K c c')
    (e : Expr) (env : Environment) : Follows K e.eval env := by
  have hC : Course (fun env s => K env.catalog s.catalog) (fun env s => K env.catalog s.catalog) :=
    { hK.course with remove := fun hr => ⟨hremove hr, hremove hr⟩ }
  exact hK.congruence.eval e (fun _ => hC.removing) env

end Catalog.PinBlind

/-- An expression without removals leaves the catalog as it is at every moment, but for the pins. -/
theorem eqUpToPins_eval {e : Expr} (h : e.removes = false) (env : Environment) :
    Catalog.PinBlind.Follows Catalog.EqUpToPins e.eval env := by
  refine Catalog.EqUpToPins.pinBlind.congruence.eval e (fun hremoves => ?_) env
  rw [h] at hremoves
  cases hremoves

end KeyedTables
