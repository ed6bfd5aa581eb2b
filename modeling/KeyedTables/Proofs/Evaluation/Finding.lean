import KeyedTables.Proofs.Catalog.Slots
import KeyedTables.Proofs.Evaluation.Trace

/-!
# The table of a query

What a query finds when it looks for its table. A table that is known is found if its qualified name
means it still; a name is looked up as it is. Nothing changes thereby, and what is found is in its
slot at this moment.
-/
namespace KeyedTables.Query
variable {env env' : Environment} {t u : Installed} {op : Operator} {target : Target}
  {others : List Installed}

theorem run_frame {depth : Nat} {f : Frame} (h : env.frames[depth]? = some f) :
    (frame depth).run env = .ok f env := by
  unfold frame
  rw [Action.environment_bind, Action.run_read, h]
  rfl

theorem run_frame_of_none {depth : Nat} (h : env.frames[depth]? = none) :
    (frame depth).run env = .error (.frameUnderflow depth env.frames.length) env := by
  unfold frame
  rw [Action.environment_bind, Action.run_read, h]
  rfl

theorem run_rowKey {depth : Nat} {f : Frame} (h : env.frames[depth]? = some f) {v : Value}
    (hv : f.table.table.rowKey? f.row = some v) : (rowKey depth).run env = .ok v env := by
  unfold rowKey
  rw [Action.run_bind_of_ok (run_frame h), hv]
  rfl

theorem run_column {depth : Nat} {f : Frame} {key : Atom} {ordinal : Option Nat}
    (h : env.frames[depth]? = some f) {col : Nat}
    (hcol : columnOrdinal f key ordinal = .ok col) {v : Value}
    (hv : f.table.table.cell? f.row col = some v) :
    (column depth key ordinal).run env = .ok v env := by
  unfold column
  have hok : (Action.ofExcept (Except.ok col)).run env = .ok col env := rfl
  rw [Action.run_bind_of_ok (run_frame h), hcol, Action.run_bind_of_ok hok, hv]
  rfl

theorem run_column_of_error {depth : Nat} {f : Frame} {key : Atom} {ordinal : Option Nat}
    (h : env.frames[depth]? = some f) {e : Error}
    (hcol : columnOrdinal f key ordinal = .error e) :
    (column depth key ordinal).run env = .error e env := by
  unfold column
  rw [Action.run_bind_of_ok (run_frame h), hcol]
  rfl

lemma run_findKnown_of_ok (h : env.catalog.find t.table.qualifiedName = .ok u) :
    (findKnown t).run env =
      if u.serial = t.serial then .ok t env
      else .error (.tableNotFound t.table.qualifiedName) env := by
  unfold findKnown
  rw [Action.environment_bind, Action.run_read, h]
  dsimp only
  split
  · rfl
  · rfl

theorem run_findKnown_of_error {e : Error}
    (h : env.catalog.find t.table.qualifiedName = .error e) :
    (findKnown t).run env = .error (.tableNotFound t.table.qualifiedName) env := by
  unfold findKnown
  rw [Action.environment_bind, Action.run_read, h]
  rfl

theorem run_findKnown_of_find (h : env.catalog.find t.table.qualifiedName = .ok t) :
    (findKnown t).run env = .ok t env := by
  rw [run_findKnown_of_ok h, if_pos rfl]

theorem findKnown_eq_ok (h : (findKnown t).run env = .ok u env') :
    u = t ∧ env' = env ∧ ∃ current, env.catalog.find t.table.qualifiedName = .ok current ∧
      current.serial = t.serial := by
  cases hfind : env.catalog.find t.table.qualifiedName with
  | error e =>
    rw [run_findKnown_of_error hfind] at h
    cases h
  | ok current =>
    rw [run_findKnown_of_ok hfind] at h
    split at h
    · rename_i hserial
      cases h
      exact ⟨rfl, rfl, current, rfl, hserial⟩
    · cases h

lemma findNamed_eq_ok {op : Operator} {v : Value}
    (h : (findNamed op v).run env = .ok t env') :
    env' = env ∧ ∃ name, env.catalog.find name = .ok t := by
  unfold findNamed at h
  split at h
  · rename_i name _
    unfold findTable at h
    rw [Action.environment_bind, Action.run_read] at h
    cases hfind : env.catalog.find name with
    | error e =>
      rw [hfind] at h
      cases h
    | ok u =>
      rw [hfind] at h
      cases h
      exact ⟨rfl, name, hfind⟩
  · cases h

/-- The table of a query is the known one, if it is known. -/
theorem table_of_evalTarget (h : (Expr.evalTarget op target).run env = .ok t env') {table : Table}
    (ht : target.table? = some table) : t.table = table := by
  cases target with
  | named e => cases ht
  | known u =>
    cases ht
    rw [Expr.evalTarget] at h
    rw [(findKnown_eq_ok h).1]

/-- The table that a query finds is in its slot when it is found. -/
theorem holds_of_evalTarget (hsound : env'.catalog.Sound others)
    (h : (Expr.evalTarget op target).run env = .ok t env')
    (hknown : ∀ u, target = .known u → u ∈ others) : env'.catalog.Holds t := by
  cases target with
  | known u =>
    rw [Expr.evalTarget] at h
    obtain ⟨rfl, rfl, current, hfind, hserial⟩ := findKnown_eq_ok h
    have hcurrent := hsound.valid.holds_of_find hfind
    have hmem := List.mem_append_right others (hsound.valid.mem_tables_iff_holds.2 hcurrent)
    rw [← hsound.numbered.eq_of_serial_eq current hmem t
      (List.mem_append_left _ (hknown t rfl)) hserial]
    exact hcurrent
  | named e =>
    rw [Expr.evalTarget] at h
    obtain ⟨v, env₁, _, h⟩ := Action.run_bind_eq_ok h
    obtain ⟨rfl, name, hfind⟩ := findNamed_eq_ok h
    exact hsound.valid.holds_of_find hfind

/-- A known table is reported as missing if its qualified name means another table or none. -/
theorem run_findKnown_of_ne (h : env.catalog.Sound others)
    (ht : t ∈ others ++ env.catalog.tables)
    (hne : env.catalog.find t.table.qualifiedName ≠ .ok t) :
    (findKnown t).run env = .error (.tableNotFound t.table.qualifiedName) env := by
  cases hfind : env.catalog.find t.table.qualifiedName with
  | error e => exact run_findKnown_of_error hfind
  | ok u =>
    have hu : u ∈ others ++ env.catalog.tables :=
      List.mem_append_right _ (h.valid.mem_tables_iff_holds.2 (h.valid.holds_of_find hfind))
    rw [run_findKnown_of_ok hfind, if_neg]
    intro hserial
    rw [hfind, h.numbered.eq_of_serial_eq u hu t ht hserial] at hne
    exact hne rfl

end KeyedTables.Query
