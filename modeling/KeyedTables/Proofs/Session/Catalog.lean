import KeyedTables.Proofs.Catalog.Serials
import KeyedTables.Proofs.Evaluation.Catalogs
import KeyedTables.Proofs.Session.Invariant
import KeyedTables.Proofs.Snapshot.Decoding

/-!
# Catalogs in sessions

The only thing evaluation does to the modules and tables of a catalog is to remove tables, and
everything else that a session does to them is an operation of the catalog. So the catalog is valid
throughout every session, whatever fails in it and whatever bytes are restored, and its tables are
told apart from each other and from those taken out before.
-/
namespace KeyedTables

/-- A sound catalog stays sound. -/
def KeepsSound (c c' : Catalog) : Prop := ∀ others, c.Sound others → c'.Sound others

namespace KeepsSound

lemma pinBlind : Catalog.PinBlind KeepsSound where
  pins _ _ := fun _ h => h.congr rfl rfl rfl
  trans h h' := fun others hsound => h' others (h others hsound)

theorem eval (e : Expr) (env : Environment) : Catalog.PinBlind.Follows KeepsSound e.eval env :=
  pinBlind.eval (fun hr _ h => h.remove hr) e env

end KeepsSound

namespace Session

/-- The catalog is sound, also with respect to the tables taken out. -/
theorem sound_invariant : Invariant fun s => s.env.catalog.Sound s.taken where
  start _ := Catalog.sound_initial
  env taken _ := {
    begin := fun h => h
    failed := fun h => h
    setGlobal := fun _ _ h => h
    takeOutput := fun h => h
    eval := fun {env} e h => (KeepsSound.eval e env).last taken h
    install := fun h hs hi => h.install hs hi
    defineModule := fun h hd => h.defineModule hd
    setCurrent := fun h hs => h.setCurrent hs
    restore := fun h _ hc => (Snapshot.sound_toCatalog hc).succeeding h }
  take h ht := h.take ht
  pin h _ := h.congr rfl rfl rfl
  release h _ := h.congr rfl rfl rfl

theorem sound_run (config : Config) (steps : List Step) :
    (run config steps).env.catalog.Sound (run config steps).taken :=
  sound_invariant.run config steps

end Session

lemma not_busy_of_firstBusy? {c : Catalog} (h : c.firstBusy? = none) {t : Installed}
    (ht : t ∈ c.tables) : c.busy t = 0 := by
  have hnone := List.find?_eq_none.1 h t ht
  simpa using hnone

lemma restoreWith_eq_error {expand : Snapshot.Expander} {bytes : List UInt8}
    {env env' : Environment} {e : Error}
    (h : Environment.restoreWith expand bytes env = .error e env') : env' = env := by
  unfold Environment.restoreWith at h
  split at h
  · cases h
    rfl
  · split at h
    · cases h
    · cases h
      rfl

lemma restoreWith_eq_ok {expand : Snapshot.Expander} {bytes : List UInt8}
    {env env' : Environment} (h : Environment.restoreWith expand bytes env = .ok () env') :
    env.catalog.firstBusy? = none := by
  unfold Environment.restoreWith at h
  split at h
  · cases h
  · assumption

/-- Throughout every session the catalog is valid and counts its tables right, every table fills its
rows and tells columns and rows apart, and restoring changes nothing when it fails and succeeds only
when no table is busy. -/
theorem catalog_valid_throughout (config : Config) (steps : List Step) :
    let env := (Session.run config steps).env
    env.catalog.Valid ∧ env.catalog.tableCount = env.catalog.tables.length ∧
      (∀ m ∈ env.catalog.modules, ∀ name t, m.table? name = some t →
        t.table.columns ≠ [] ∧ t.table.columns.Nodup ∧
          t.table.cells.size = t.table.rowCount * t.table.columnCount ∧
            (∀ i < t.table.rowCount, (t.table.rowKey? i).isSome) ∧
              ∀ i < t.table.rowCount, ∀ j < t.table.rowCount,
                t.table.rowKey? i = t.table.rowKey? j → i = j) ∧
      ∀ expand bytes,
        (∀ e env', Environment.restoreWith expand bytes env = .error e env' → env' = env) ∧
        ∀ env', Environment.restoreWith expand bytes env = .ok () env' →
          ∀ m ∈ env.catalog.modules, ∀ name t, m.table? name = some t →
            env.catalog.busy t = 0 := by
  intro env
  have hvalid : env.catalog.Valid := (Session.sound_run config steps).valid
  refine ⟨hvalid, Catalog.tableCount_eq hvalid, ?_, fun expand bytes => ⟨?_, ?_⟩⟩
  · intro m hm name t ht
    have hkeyed := t.table.keyed
    refine ⟨((hvalid.modules m hm).stored ht).sized.columns_ne_nil, hkeyed.nodup_columns,
      hkeyed.size_cells, ?_, ?_⟩
    · intro i hi
      exact Table.isSome_rowKey? hi
    · intro i hi j hj hij
      exact Table.rowKey?_injective hi hj hij
  · intro e env' h
    exact restoreWith_eq_error h
  · intro env' h m hm name t ht
    exact not_busy_of_firstBusy? (restoreWith_eq_ok h)
      ((Catalog.mem_tables_iff hvalid).2 ⟨m, hm, name, ht⟩)

end KeyedTables
