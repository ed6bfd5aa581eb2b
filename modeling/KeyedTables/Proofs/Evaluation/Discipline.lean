import KeyedTables.Proofs.Catalog.Changes
import KeyedTables.Proofs.Evaluation.Course

/-!
# The discipline of frames and pins

Evaluation leaves the frames as it found them, but for the innermost query, which it may tell to
stop, and it releases every pin it takes, whether it succeeds or fails. While it goes on, the frames
it found stay below its own, every table is as busy as it has live pins, and there are no more
frames than allowed. The same is shown of a query inside its own frame, which besides may move to
other rows.
-/
namespace KeyedTables

namespace Environment

/-- How many pins are live on a table: those of the queries in progress, and those held outside of
all queries, given by their serial numbers. -/
def livePins (env : Environment) (outside : List Nat) (t : Installed) : Nat :=
  (env.frames.map (·.table.serial)).count t.serial + outside.count t.serial

/-- Every table is as busy as it has live pins. -/
def Balanced (outside : List Nat) (env : Environment) : Prop :=
  ∀ t : Installed, env.catalog.busy t = env.livePins outside t

theorem Balanced.congr {outside : List Nat} {env env' : Environment} (h : env.Balanced outside)
    (hp : env'.catalog.pins = env.catalog.pins)
    (hf : env'.frames.map (·.table.serial) = env.frames.map (·.table.serial)) :
    env'.Balanced outside := by
  intro t
  have ht := h t
  unfold Catalog.busy livePins at ht ⊢
  rw [hp, hf]
  exact ht

theorem Balanced.pushFrame {outside : List Nat} {env : Environment} (h : env.Balanced outside)
    (f : Frame) : (env.pushFrame f).Balanced outside := by
  intro t
  have ht := h t
  unfold Catalog.busy livePins at ht ⊢
  simp only [Environment.pushFrame, Catalog.pin, List.map_cons, List.count_cons]
  omega

theorem Balanced.popFrame {outside : List Nat} {env : Environment} (h : env.Balanced outside) :
    env.popFrame.Balanced outside := by
  intro t
  have ht := h t
  unfold Environment.popFrame
  cases hf : env.frames with
  | nil => exact ht
  | cons f frames =>
    unfold Catalog.busy livePins at ht ⊢
    rw [hf, List.map_cons, List.count_cons] at ht
    simp only [Catalog.unpin, List.count_erase]
    omega

end Environment

/-- The frames are the same, but the innermost query may have been told to stop. -/
inductive Marked : List Frame → List Frame → Prop
  | same (frames : List Frame) : Marked frames frames
  | abort (f : Frame) (frames : List Frame) :
    Marked (f :: frames) ({ f with aborted := true } :: frames)

/-- The frames are the same, but the innermost query may be at another row, and may have been told
to stop or to go on. -/
inductive Moved : List Frame → List Frame → Prop
  | same (frames : List Frame) : Moved frames frames
  | visit (f : Frame) (row : Nat) (aborted : Bool) (frames : List Frame) :
    Moved (f :: frames) ({ f with row, aborted } :: frames)

/-- What evaluation may make of the frames it finds: it tells the innermost query to stop, any
number of times, and adds and removes none. -/
structure FrameRelation (rel : List Frame → List Frame → Prop) : Prop where
  refl (frames : List Frame) : rel frames frames
  trans {a b c : List Frame} : rel a b → rel b c → rel a c
  serials {a b : List Frame} : rel a b → b.map (·.table.serial) = a.map (·.table.serial)
  abort (f : Frame) (frames : List Frame) : rel (f :: frames) ({ f with aborted := true } :: frames)

lemma FrameRelation.length {rel : List Frame → List Frame → Prop} (hrel : FrameRelation rel)
    {a b : List Frame} (h : rel a b) : b.length = a.length := by
  have hs := congrArg List.length (hrel.serials h)
  rwa [List.length_map, List.length_map] at hs

theorem Marked.frameRelation : FrameRelation Marked where
  refl := Marked.same
  trans hab hbc := by
    cases hab with
    | same => exact hbc
    | abort f frames =>
      cases hbc with
      | same => exact .abort f frames
      | abort _ _ => exact .abort f frames
  serials h := by cases h <;> rfl
  abort := Marked.abort

theorem Moved.frameRelation : FrameRelation Moved where
  refl := Moved.same
  trans hab hbc := by
    cases hab with
    | same => exact hbc
    | visit f row aborted frames =>
      cases hbc with
      | same => exact .visit f row aborted frames
      | visit _ row' aborted' _ => exact .visit f row' aborted' frames
  serials h := by cases h <;> rfl
  abort f frames := .visit f f.row true frames

theorem Marked.moved {a b : List Frame} (h : Marked a b) : Moved a b := by
  cases h with
  | same => exact .same a
  | abort f frames => exact .visit f f.row true frames

theorem Marked.eq_nil {a b : List Frame} (h : Marked a b) (ha : a = []) : b = [] := by
  cases h with
  | same => exact ha
  | abort f frames => cases ha

/-- What becomes of a query's own frame and those below it. -/
theorem Moved.of_cons {f : Frame} {frames after : List Frame} (h : Moved (f :: frames) after) :
    ∃ f', after = f' :: frames ∧ f'.op = f.op ∧ f'.rowVariable = f.rowVariable ∧
      f'.table = f.table := by
  cases h with
  | same => exact ⟨f, rfl, rfl, rfl, rfl⟩
  | visit _ row aborted _ => exact ⟨_, rfl, rfl, rfl, rfl⟩

/-- What is left when a query ends that only moved and was told to stop. -/
theorem Moved.frames_popFrame {f : Frame} {frames : List Frame} {s : Environment}
    (h : Moved (f :: frames) s.frames) : s.popFrame.frames = frames := by
  obtain ⟨f', hframes, _⟩ := h.of_cons
  rw [Environment.popFrame, hframes]

structure Ending (rel : List Frame → List Frame → Prop) (env env' : Environment) : Prop where
  config : env'.config = env.config
  frames : rel env.frames env'.frames

structure Moment (rel : List Frame → List Frame → Prop) (outside : List Nat)
    (env s : Environment) : Prop where
  balanced : s.Balanced outside
  /-- The frames there were are at the bottom. -/
  below : ∃ upper lower, s.frames = upper ++ lower ∧ rel env.frames lower
  depth : env.frames.length ≤ env.config.maxQueryDepth →
    s.frames.length ≤ env.config.maxQueryDepth

/-- How the frames come out of an action, and what every environment on the way is like, provided
that pins and frames were balanced at first. -/
abbrev Disciplined (rel : List Frame → List Frame → Prop) (outside : List Nat) {α : Type}
    (m : Action α) (env : Environment) : Prop :=
  Along (Ending rel) (fun env s => env.Balanced outside → Moment rel outside env s) m env

section Discipline
variable {rel : List Frame → List Frame → Prop} {outside : List Nat} {α : Type}
  {env env' s : Environment}

lemma Moment.trans (hrel : FrameRelation rel) (h : Moment rel outside env env')
    (hlast : Ending rel env env') (h' : Moment rel outside env' s) : Moment rel outside env s where
  balanced := h'.balanced
  below := by
    obtain ⟨upper, lower, hs, hr⟩ := h'.below
    exact ⟨upper, lower, hs, hrel.trans hlast.frames hr⟩
  depth hd := by
    have hd' := h.depth hd
    rw [← hlast.config] at hd' ⊢
    exact h'.depth hd'

/-- A change of the frames at most, which keeps the pins. -/
theorem Ending.reached (hrel : FrameRelation rel) (h : Ending rel env s)
    (hp : s.catalog.pins = env.catalog.pins) :
    Reached (Ending rel) (fun env s => env.Balanced outside → Moment rel outside env s) env s where
  last := h
  moment hb := {
    balanced := hb.congr hp (hrel.serials h.frames)
    below := ⟨[], s.frames, rfl, h.frames⟩
    depth := fun hd => by rwa [hrel.length h.frames] }

/-- Frames and pins are kept by everything but queries. -/
theorem FrameRelation.course (hrel : FrameRelation rel) (outside : List Nat) :
    Course (Ending rel) (fun env s => env.Balanced outside → Moment rel outside env s) where
  refl env := Ending.reached hrel ⟨rfl, hrel.refl env.frames⟩ rfl
  last_trans hab hbc := ⟨hbc.config.trans hab.config, hrel.trans hab.frames hbc.frames⟩
  moment_trans hab hbc := fun h =>
    have hb := hab.moment h
    hb.trans hrel hab.last (hbc hb.balanced)
  write {env env'} hc hcat hf := by
    refine Ending.reached hrel ⟨hc, ?_⟩ (by rw [hcat])
    rw [hf]
    exact hrel.refl env.frames
  abort env := by
    unfold Environment.abortInnermost
    cases hf : env.frames with
    | nil => exact Ending.reached hrel ⟨rfl, hrel.refl _⟩ rfl
    | cons f frames =>
      refine Ending.reached hrel ⟨rfl, ?_⟩ rfl
      rw [hf]
      exact hrel.abort f frames
  remove hr := Ending.reached hrel ⟨rfl, hrel.refl _⟩ (Catalog.pins_remove hr)

/-- Of frames that were only marked it may be said that they were moved. -/
theorem Disciplined.moved {m : Action α} (h : Disciplined Marked outside m env) :
    Disciplined Moved outside m env where
  last := ⟨h.last.config, h.last.frames.moved⟩
  moments s hs hb := by
    have hm := h.moments s hs hb
    obtain ⟨upper, lower, hl, hr⟩ := hm.below
    exact ⟨hm.balanced, ⟨upper, lower, hl, hr.moved⟩, hm.depth⟩

/-- Moving to a row. -/
theorem reached_visit (env : Environment) (row : Nat) :
    Reached (Ending Moved) (fun env s => env.Balanced outside → Moment Moved outside env s) env
      (env.visit row) := by
  unfold Environment.visit
  cases hf : env.frames with
  | nil => exact Ending.reached Moved.frameRelation ⟨rfl, .same _⟩ rfl
  | cons f frames =>
    refine Ending.reached Moved.frameRelation ⟨rfl, ?_⟩ rfl
    rw [hf]
    exact .visit f row false frames

/-- A query inside its own frame. -/
theorem disciplined_visits {body : Query.Body}
    (htest : ∀ env, Disciplined Marked outside body.test env)
    (haction : ∀ env, Disciplined Marked outside body.action env) (op : Operator) (t : Table)
    (start : Nat) (env : Environment) :
    Disciplined Moved outside (Query.visits op t start body) env :=
  (Moved.frameRelation.course outside).visits reached_visit (fun env => (htest env).moved)
    (fun env => (haction env).moved) op t start env

/-- A query with the beginning and the end of its frame: the frames below are left alone, and the
pin is released. -/
theorem disciplined_inFrame {f : Frame} {m : Action α}
    (hroom : env.frames.length < env.config.maxQueryDepth)
    (hm : Disciplined Moved outside m (env.pushFrame f)) :
    Disciplined Marked outside (Query.inFrame f m) env := by
  have hmoment : env.Balanced outside → ∀ s ∈ m.trace (env.pushFrame f),
      Moment Marked outside env s := by
    intro h s hs
    have hmom := hm.moments s hs (h.pushFrame f)
    obtain ⟨upper, lower, hframes, hmoved⟩ := hmom.below
    obtain ⟨f', rfl, _⟩ := hmoved.of_cons
    exact {
      balanced := hmom.balanced
      below := ⟨upper ++ [f'], env.frames, by rw [hframes, List.append_cons], .same env.frames⟩
      depth := fun _ => hmom.depth hroom }
  obtain ⟨f', hframes, _⟩ := hm.last.frames.of_cons
  have hpop : (m.final (env.pushFrame f)).popFrame.frames = env.frames :=
    hm.last.frames.frames_popFrame
  have hending : Ending Marked env (m.final (env.pushFrame f)).popFrame := by
    refine ⟨?_, ?_⟩
    · rw [Environment.popFrame, hframes]
      exact hm.last.config
    · rw [hpop]
      exact .same env.frames
  constructor
  · rw [final_inFrame]
    exact hending
  · intro s hs h
    obtain rfl | hs | rfl := mem_trace_inFrame.1 hs
    · exact ((Marked.frameRelation.course outside).refl s).moment h
    · exact hmoment h s hs
    · exact {
        balanced := (hmoment h _ (Action.final_mem_trace m _)).balanced.popFrame
        below := ⟨[], env.frames, hpop, .same env.frames⟩
        depth := fun hd => by rwa [hpop] }

/-- A query with disciplined parts is disciplined. The number of frames is looked at before the key
is evaluated, which does not change it. -/
theorem disciplined_run (op : Operator) (rowVariable : String) {target : Action Installed}
    {key : Option (Action Value)} {body : Query.Body}
    (htarget : ∀ env, Disciplined Marked outside target env)
    (hkey : Option.Rel (fun m _ => ∀ env, Disciplined Marked outside m env) key key)
    (htest : ∀ env, Disciplined Marked outside body.test env)
    (haction : ∀ env, Disciplined Marked outside body.action env) (env : Environment) :
    Disciplined Marked outside (Query.run op rowVariable target key body) env := by
  have hC := Marked.frameRelation.course outside
  refine hC.bind (htarget env) fun t env₁ _ _ => Course.look ?_
  split
  · exact hC.fail _ env₁
  · rename_i hroom
    refine hC.bind (hC.congruence.startRow hkey (Or.inr fun _ _ => trivial) t.table env₁)
      fun start env₂ _ h₂ => ?_
    refine disciplined_inFrame ?_ (disciplined_visits htest haction op t.table start _)
    rw [h₂.last.config, Marked.frameRelation.length h₂.last.frames]
    omega

theorem disciplined_congruence (outside : List Nat) :
    EvaluationCongruence fun _ m _ => ∀ env, Disciplined Marked outside m env where
  toBaseCongruence := (Marked.frameRelation.course outside).congruence.toBaseCongruence
  rowKey := (Marked.frameRelation.course outside).congruence.rowKey
  column := (Marked.frameRelation.course outside).congruence.column
  query := by
    intro op rowVariable target key body htarget hkey htest haction env
    exact disciplined_run op rowVariable htarget hkey htest haction env

/-- The evaluation of every expression is disciplined. -/
theorem disciplined_eval (outside : List Nat) (e : Expr) (env : Environment) :
    Disciplined Marked outside e.eval env :=
  (disciplined_congruence outside).eval e
    (fun _ => (Marked.frameRelation.course outside).removing) env

end Discipline

end KeyedTables
