import KeyedTables.Catalog.Basic
import KeyedTables.Text.Split

/-!
# Names of tables

Which table a name means. A qualified name gives the module; a local name means a table of the
current module or, failing that, of one of the modules it reaches through imports, directly or not.
The search visits every module once, whatever cycles the imports form, and several modules with a
table of the name make it ambiguous.
-/
namespace KeyedTables.Catalog

/-- The names of modules that are not in a list. -/
def unvisited (c : Catalog) (visited : List String) : List String :=
  (c.modules.map Module.name).filter (· ∉ visited)

theorem mem_names_of_module? {c : Catalog} {name : String} {m : Module}
    (h : c.module? name = some m) : name ∈ c.modules.map Module.name := by
  have hn : m.name = name := by simpa using List.find?_some h
  exact List.mem_map.2 ⟨m, List.mem_of_find?_eq_some h, hn⟩

theorem length_unvisited_lt {c : Catalog} {name : String} {visited : List String} {m : Module}
    (h : c.module? name = some m) (hv : name ∉ visited) :
    (c.unvisited (name :: visited)).length < (c.unvisited visited).length := by
  have hsub : c.unvisited (name :: visited) = (c.unvisited visited).filter (· ≠ name) := by
    simp only [unvisited, List.filter_filter]
    congr 1
    funext x
    by_cases hx : x = name <;> simp [hx]
  rw [hsub]
  apply List.length_filter_lt_length_iff_exists.2
  exact ⟨name, List.mem_filter.2 ⟨mem_names_of_module? h, by simpa using hv⟩, by simp⟩

/-- The modules found by following imports from the pending names, each once, and none of those
visited before. -/
def reach (c : Catalog) (visited pending : List String) : List Module :=
  match pending with
  | [] => []
  | name :: rest =>
    if _hv : name ∈ visited then c.reach visited rest
    else
      match _hm : c.module? name with
      | none => c.reach visited rest
      | some m => m :: c.reach (name :: visited) (m.imports ++ rest)
termination_by ((c.unvisited visited).length, pending.length)
decreasing_by
  · exact Prod.Lex.right _ (by simp)
  · exact Prod.Lex.right _ (by simp)
  · exact Prod.Lex.left _ _ (length_unvisited_lt _hm _hv)

/-- The modules other than the current one that it reaches through imports. -/
def imported (c : Catalog) : List Module :=
  match c.module? c.current with
  | some m => c.reach [c.current] m.imports
  | none => []

/-- The table a local name means: the current module's own, or else that of the one imported module
that has a table of this name. -/
def findLocal (c : Catalog) (name : String) : Except Error Installed :=
  match (c.module? c.current).bind (·.table? name) with
  | some t => .ok t
  | none =>
    match c.imported.filterMap fun m => (m.table? name).map (m.name, ·) with
    | [] => .error (.tableNotFound name)
    | [(_, t)] => .ok t
    | owners => .error (.ambiguousTable name ((owners.map Prod.fst).mergeSort (· ≤ ·)))

/-- The table a name means; a qualified name means a table of the module it names. -/
def find (c : Catalog) (name : String) : Except Error Installed :=
  match Text.splitQualified? name with
  | some (owner, localName) =>
    match c.module? owner with
    | none => .error (.unknownModule owner)
    | some m =>
      match m.table? localName with
      | some t => .ok t
      | none => .error (.tableNotFound name)
  | none => c.findLocal name

/-- Removes the table a name means. -/
def remove (c : Catalog) (name : String) : Except Error Catalog :=
  match c.find name with
  | .error e => .error e
  | .ok t =>
    if 0 < c.busy t then .error (c.inUse t)
    else
      match c.module? t.table.module with
      | none => .error (.unknownModule t.table.module)
      | some m => .ok (c.updateModule m.name (·.drop t.table.name))

end KeyedTables.Catalog
