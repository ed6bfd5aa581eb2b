import KeyedTables.Proofs.Form.Kinds
import KeyedTables.Proofs.Table.Rows
import KeyedTables.Proofs.Table.Sized

/-!
# The grammar of table definitions

A definition is accepted exactly if it is written in the order name, comment, declaration, columns,
rows, its rows are as wide as its columns, its cells have values, and columns and row keys are
distinct. What it builds is then determined: the table holds the values of the cells row by row, as
they came in source order.
-/
namespace KeyedTables

namespace Definition

def symbolForm (s : String) : Form := .atom (.symbol s)

def property (autoKeys : Bool) : Form :=
  .list [symbolForm "auto-keys", symbolForm (if autoKeys then "TRUE" else "FALSE")]

def declaration (properties : List Bool) : Form :=
  .list (symbolForm "declare" :: properties.map property)

/-- What stands before the rows of a definition. -/
structure Heading where
  /-- The name of the table, possibly with its module. -/
  name : String
  comment : Option String
  /-- What each property of the declaration says. -/
  properties : Option (List Bool)
  columns : List String

namespace Heading

/-- A definition behind its head, in the order of the grammar. -/
def items (d : Heading) (rows : List Form) : List Form :=
  symbolForm d.name :: (d.comment.toList.map (fun c => .atom (.string c)) ++
    (d.properties.toList.map declaration ++ .list (d.columns.map symbolForm) :: rows))

/-- Keys are automatic if the last property says so. -/
def autoKeys (d : Heading) : Bool := (d.properties.bind List.getLast?).getD false

def qualifiedName (d : Heading) (defaultModule : String) : String × String :=
  (Text.splitQualified? d.name).getD (defaultModule, d.name)

/-- The columns of the table, the one of automatic keys in front. -/
def columnKeys (d : Heading) (keyColumn : String) : List Atom :=
  if d.autoKeys then .symbol keyColumn :: d.columns.map .symbol else d.columns.map .symbol

/-- A declaration declares something, the columns do not look like one, and there are some. -/
structure Grammatical (d : Heading) (keyColumn : String) : Prop where
  properties_ne : d.properties ≠ some []
  head_columns_ne : d.columns.head? ≠ some "declare"
  columns_ne_nil : d.columnKeys keyColumn ≠ []

def header (d : Heading) (defaultModule keyColumn : String) : Header where
  module := (d.qualifiedName defaultModule).1
  name := (d.qualifiedName defaultModule).2
  comment := d.comment
  autoKeys := d.autoKeys
  columns := d.columnKeys keyColumn

lemma width_header (d : Heading) (defaultModule keyColumn : String) :
    (d.header defaultModule keyColumn).width = d.columns.length := by
  rw [Header.width, header, columnKeys]
  cases d.autoKeys <;> simp

end Heading

/-- Rows as they are stored: automatic keys number them from `first` on. -/
def storedRows (autoKeys : Bool) (first : Nat) (rows : List (List Value)) : List (List Value) :=
  rows.mapIdx fun i row =>
    if autoKeys then .integer (Int64.ofNat (first + i)) :: row else row

theorem storedRows_cons (autoKeys : Bool) (first : Nat) (row : List Value)
    (rows : List (List Value)) :
    storedRows autoKeys first (row :: rows) =
      ((if autoKeys then [.integer (Int64.ofNat first)] else []) ++ row) ::
        storedRows autoKeys (first + 1) rows := by
  rw [storedRows, List.mapIdx_cons, storedRows]
  simp only [Nat.add_assoc, Nat.add_comm 1]
  cases autoKeys <;> rfl

/-- What the table is built from when the cells of its rows have these values. -/
def Heading.parts (d : Heading) (defaultModule keyColumn : String) (values : List (List Value)) :
    Table.Parts where
  name := (d.qualifiedName defaultModule).2
  module := (d.qualifiedName defaultModule).1
  comment := d.comment
  autoKeys := d.autoKeys
  columns := d.columnKeys keyColumn
  cells := (storedRows d.autoKeys 1 values).flatten.toArray

section Values
variable {σ α β : Type}

/-- The items of a list have these values one after another, the state being handed on. -/
inductive InTurn (R : α → σ → β → σ → Prop) : List α → σ → List β → σ → Prop
  | nil (s : σ) : InTurn R [] s [] s
  | cons {x : α} {xs : List α} {y : β} {ys : List β} {s s₁ s₂ : σ} (head : R x s y s₁)
      (tail : InTurn R xs s₁ ys s₂) : InTurn R (x :: xs) s (y :: ys) s₂

lemma InTurn.length_eq {R : α → σ → β → σ → Prop} {xs : List α} {ys : List β} {s s' : σ}
    (h : InTurn R xs s ys s') : ys.length = xs.length := by
  induction h with
  | nil => rfl
  | cons _ _ ih => rw [List.length_cons, List.length_cons, ih]

/-- The value of a cell: an atom and a list of atoms are constants, global variables and immediate
forms are evaluated. -/
inductive HasValue (evaluate : Form → EStateM Error σ Value) : Form → σ → Value → σ → Prop
  | atom (a : Atom) (s : σ) : HasValue evaluate (.atom a) s (.atom a) s
  | atoms (xs : List Atom) (s : σ) :
      HasValue evaluate (.list (xs.map .atom)) s (.multifield xs) s
  | globalVar {g : String} {s s' : σ} {v : Value} (h : evaluate (.globalVar g) s = .ok v s') :
      HasValue evaluate (.globalVar g) s v s'
  | immediate {xs : List Form} {s s' : σ} {v : Value}
      (h : evaluate (.immediate xs) s = .ok v s') : HasValue evaluate (.immediate xs) s v s'

abbrev HaveValues (evaluate : Form → EStateM Error σ Value) :
    List (List Form) → σ → List (List Value) → σ → Prop :=
  InTurn (InTurn (HasValue evaluate))

end Values

theorem width_of_haveValues {σ : Type} {evaluate : Form → EStateM Error σ Value} {n : Nat}
    {rows : List (List Form)} {values : List (List Value)} {s s' : σ}
    (h : HaveValues evaluate rows s values s') (hwidth : ∀ row ∈ rows, row.length = n) :
    ∀ row ∈ values, row.length = n := by
  induction h with
  | nil => exact fun _ hr => by cases hr
  | cons head _ ih =>
    obtain ⟨hrow, hrows⟩ := List.forall_mem_cons.1 hwidth
    exact List.forall_mem_cons.2 ⟨by rw [head.length_eq, hrow], ih hrows⟩

section Headers
variable {table defaultModule keyColumn : String} {items rows : List Form}

lemma nameOf_eq_ok_iff {owner : String × String} {rest : List Form} :
    nameOf defaultModule items = .ok (owner, rest) ↔
      ∃ s, items = symbolForm s :: rest ∧
        owner = (Text.splitQualified? s).getD (defaultModule, s) := by
  constructor
  · intro h
    unfold nameOf at h
    split at h
    · cases h
    · cases h
      exact ⟨_, rfl, rfl⟩
    · cases h
  · rintro ⟨s, rfl, rfl⟩
    rfl

lemma commentOf_append_rest (items : List Form) :
    (commentOf items).1.toList.map (fun c => .atom (.string c)) ++ (commentOf items).2 = items := by
  unfold commentOf
  split <;> rfl

/-- What is not a string is no comment. -/
theorem commentOf_append {comment : Option String}
    (h : ∀ c, rows.head? ≠ some (.atom (.string c))) :
    commentOf (comment.toList.map (fun c => .atom (.string c)) ++ rows) = (comment, rows) := by
  cases comment with
  | some c => rfl
  | none =>
    unfold commentOf
    split
    · rename_i c rest heq
      rw [Option.toList_none, List.map_nil, List.nil_append] at heq
      exact absurd (by rw [heq]; rfl) (h c)
    · rfl

lemma propertyOf_eq_ok_iff {p : Form} {autoKeys : Bool} :
    propertyOf table p = .ok autoKeys ↔ p = property autoKeys := by
  constructor
  · intro h
    unfold propertyOf at h
    split at h
    · cases h
    · cases h
    · rename_i name values hlist
      rw [Form.list?_eq_some_iff.1 hlist]
      split at h
      · rename_i hname
        rw [Form.symbol?_eq_some_iff.1 hname]
        split at h
        · rename_i value
          split at h
          · rename_i hvalue
            cases h
            rw [Form.symbol?_eq_some_iff.1 hvalue]
            rfl
          · split at h
            · rename_i hvalue
              cases h
              rw [Form.symbol?_eq_some_iff.1 hvalue]
              rfl
            · cases h
        · cases h
      · cases h
  · rintro rfl
    cases autoKeys <;> rfl

lemma propertiesOf_eq_ok_iff {ps : List Form} {before autoKeys : Bool} :
    propertiesOf table ps before = .ok autoKeys ↔
      ∃ said : List Bool, ps = said.map property ∧ autoKeys = said.getLast?.getD before := by
  induction ps generalizing before with
  | nil =>
    rw [propertiesOf, Except.ok.injEq]
    constructor
    · rintro rfl
      exact ⟨[], rfl, rfl⟩
    · rintro ⟨said, hnil, rfl⟩
      rw [List.map_eq_nil_iff.1 hnil.symm]
      rfl
  | cons p ps ih =>
    rw [propertiesOf]
    constructor
    · intro h
      split at h
      · cases h
      · rename_i first hp
        obtain ⟨said, rfl, rfl⟩ := ih.1 h
        refine ⟨first :: said, ?_, ?_⟩
        · rw [propertyOf_eq_ok_iff.1 hp, List.map_cons]
        · rw [List.getLast?_cons]
          rfl
    · rintro ⟨said, hmap, rfl⟩
      cases said with
      | nil => cases hmap
      | cons first said =>
        cases hmap
        rw [propertyOf_eq_ok_iff.2 rfl]
        refine ih.2 ⟨said, rfl, ?_⟩
        rw [List.getLast?_cons]
        rfl

lemma declarationOf_eq_ok_iff {ps : List Form} {autoKeys : Bool} :
    declarationOf table ps = .ok autoKeys ↔
      ∃ said : List Bool, said ≠ [] ∧ ps = said.map property ∧
        autoKeys = said.getLast?.getD false := by
  cases ps with
  | nil =>
    refine iff_of_false (fun h => by cases h) ?_
    rintro ⟨said, hne, hnil, _⟩
    exact hne (List.map_eq_nil_iff.1 hnil.symm)
  | cons p ps =>
    rw [declarationOf, propertiesOf_eq_ok_iff]
    · constructor
      · rintro ⟨said, hmap, hlast⟩
        refine ⟨said, ?_, hmap, hlast⟩
        rintro rfl
        cases hmap
      · rintro ⟨said, _, hmap, hlast⟩
        exact ⟨said, hmap, hlast⟩
    · exact fun h => by cases h

lemma columnsOf_eq_ok_iff {list : List Form} {columns : List Atom} :
    columnsOf table list = .ok columns ↔
      ∃ names : List String, list = names.map symbolForm ∧ columns = names.map .symbol := by
  induction list generalizing columns with
  | nil =>
    rw [columnsOf, Except.ok.injEq]
    constructor
    · rintro rfl
      exact ⟨[], rfl, rfl⟩
    · rintro ⟨names, hnil, rfl⟩
      rw [List.map_eq_nil_iff.1 hnil.symm]
      rfl
  | cons item list ih =>
    constructor
    · intro h
      unfold columnsOf at h
      split at h
      · rename_i heq
        cases heq
      · rename_i s rest heq
        cases heq
        cases hrest : columnsOf table list with
        | error e =>
          rw [hrest] at h
          cases h
        | ok others =>
          rw [hrest] at h
          cases h
          obtain ⟨names, rfl, rfl⟩ := ih.1 hrest
          exact ⟨s :: names, rfl, rfl⟩
      · cases h
    · rintro ⟨names, hmap, rfl⟩
      cases names with
      | nil => cases hmap
      | cons s names =>
        cases hmap
        rw [symbolForm, columnsOf, ih.2 ⟨names, rfl, rfl⟩]
        rfl

lemma head?_map_symbolForm (names : List String) :
    (Form.list (names.map symbolForm)).head? = names.head? := by
  cases names <;> rfl

/-- A list that is no declaration is the one of the columns. -/
theorem clausesOf_cons_iff {declared : Option Bool} {item : Form} {rest : List Form}
    {autoKeys : Bool} {columns : List Atom} (hitem : item.head? ≠ some "declare") :
    clausesOf table keyColumn declared (item :: rest) = .ok (autoKeys, columns, rows) ↔
      rest = rows ∧ autoKeys = declared.getD false ∧
        ∃ names : List String, item = .list (names.map symbolForm) ∧ columns ≠ [] ∧
          columns = if autoKeys then .symbol keyColumn :: names.map .symbol
            else names.map .symbol := by
  constructor
  · intro h
    unfold clausesOf at h
    split at h
    · cases h
    · rename_i list hlist
      rw [if_neg hitem] at h
      dsimp only at h
      split at h
      · cases h
      · rename_i named hnamed
        obtain ⟨names, rfl, rfl⟩ := columnsOf_eq_ok_iff.1 hnamed
        by_cases hne : (if declared.getD false then .symbol keyColumn :: names.map Atom.symbol
            else names.map Atom.symbol) = []
        · rw [if_pos hne] at h
          cases h
        · rw [if_neg hne] at h
          cases h
          exact ⟨rfl, rfl, names, Form.list?_eq_some_iff.1 hlist, hne, rfl⟩
  · rintro ⟨rfl, rfl, names, rfl, hne, rfl⟩
    rw [clausesOf]
    dsimp only [Form.list?]
    rw [if_neg hitem, columnsOf_eq_ok_iff.2 ⟨names, rfl, rfl⟩]
    dsimp only
    rw [if_neg hne]

/-- A declaration is followed by the columns. -/
theorem clausesOf_declaration_iff {list rest : List Form} {autoKeys : Bool} {columns : List Atom}
    (hitem : (Form.list list).head? = some "declare") :
    clausesOf table keyColumn none (.list list :: rest) = .ok (autoKeys, columns, rows) ↔
      ∃ said, said ≠ [] ∧ .list list = declaration said ∧
        clausesOf table keyColumn (some (said.getLast?.getD false)) rest =
          .ok (autoKeys, columns, rows) := by
  obtain ⟨head, tail, rfl, hhead⟩ :
      ∃ head tail, list = head :: tail ∧ head.symbol? = some "declare" := by
    cases list with
    | nil => cases hitem
    | cons head tail => exact ⟨head, tail, rfl, hitem⟩
  rw [clausesOf]
  dsimp only [Form.list?]
  rw [if_pos hitem, List.tail_cons, Form.symbol?_eq_some_iff.1 hhead]
  constructor
  · intro h
    split at h
    · cases h
    · rename_i said hsaid
      obtain ⟨said, hne, rfl, rfl⟩ := declarationOf_eq_ok_iff.1 hsaid
      exact ⟨said, hne, rfl, h⟩
  · rintro ⟨said, hne, hlist, h⟩
    cases hlist
    rw [declarationOf_eq_ok_iff.2 ⟨said, hne, rfl, rfl⟩]
    exact h

/-- After a declaration there can be no other. -/
theorem head?_ne_of_clausesOf {said : Bool} {item : Form} {rest : List Form} {autoKeys : Bool}
    {columns : List Atom}
    (h : clausesOf table keyColumn (some said) (item :: rest) = .ok (autoKeys, columns, rows)) :
    item.head? ≠ some "declare" := by
  intro hitem
  unfold clausesOf at h
  split at h
  · cases h
  · rw [if_pos hitem] at h
    cases h

/-- Nothing or one declaration, then the columns. -/
theorem clausesOf_eq_ok_iff {autoKeys : Bool} {columns : List Atom} :
    clausesOf table keyColumn none items = .ok (autoKeys, columns, rows) ↔
      ∃ (properties : Option (List Bool)) (names : List String),
        items = properties.toList.map declaration ++ .list (names.map symbolForm) :: rows ∧
        properties ≠ some [] ∧ names.head? ≠ some "declare" ∧ columns ≠ [] ∧
        autoKeys = (properties.bind List.getLast?).getD false ∧
        columns = if autoKeys then .symbol keyColumn :: names.map .symbol
          else names.map .symbol := by
  constructor
  · intro h
    cases items with
    | nil => cases h
    | cons item rest =>
      by_cases hitem : item.head? = some "declare"
      · cases item with
        | list list =>
          obtain ⟨said, hne, hlist, h⟩ := (clausesOf_declaration_iff hitem).1 h
          cases rest with
          | nil => cases h
          | cons item rest =>
            have hother := head?_ne_of_clausesOf h
            obtain ⟨rfl, rfl, names, rfl, hcolumns, rfl⟩ := (clausesOf_cons_iff hother).1 h
            rw [head?_map_symbolForm] at hother
            refine ⟨some said, names, ?_, ?_, hother, hcolumns, rfl, rfl⟩
            · rw [hlist]
              rfl
            · rintro ⟨⟩
              exact hne rfl
        | _ => cases hitem
      · obtain ⟨rfl, rfl, names, rfl, hcolumns, rfl⟩ := (clausesOf_cons_iff hitem).1 h
        rw [head?_map_symbolForm] at hitem
        exact ⟨none, names, rfl, (fun hn => by cases hn), hitem, hcolumns, rfl, rfl⟩
  · rintro ⟨properties, names, rfl, hne, hnames, hcolumns, rfl, rfl⟩
    rw [← head?_map_symbolForm] at hnames
    cases properties with
    | none => exact (clausesOf_cons_iff hnames).2 ⟨rfl, rfl, names, rfl, hcolumns, rfl⟩
    | some said =>
      refine (clausesOf_declaration_iff rfl).2 ⟨said, fun hnil => hne (by rw [hnil]), rfl, ?_⟩
      exact (clausesOf_cons_iff hnames).2 ⟨rfl, rfl, names, rfl, hcolumns, rfl⟩

lemma headerOf_eq_ok_iff {header : Header} :
    headerOf defaultModule keyColumn items = .ok (header, rows) ↔
      ∃ d : Heading, items = d.items rows ∧ d.Grammatical keyColumn ∧
        header = d.header defaultModule keyColumn := by
  constructor
  · intro h
    unfold headerOf at h
    split at h
    · cases h
    · rename_i rest hname
      obtain ⟨name, rfl, howner⟩ := nameOf_eq_ok_iff.1 hname
      dsimp only at h
      split at h
      · cases h
      · rename_i hclauses
        cases h
        obtain ⟨properties, names, hrest, hp, hn, hne, rfl, rfl⟩ := clausesOf_eq_ok_iff.1 hclauses
        refine ⟨⟨name, (commentOf rest).1, properties, names⟩, ?_, ⟨hp, hn, hne⟩, ?_⟩
        · rw [Heading.items]
          dsimp only
          rw [← hrest, commentOf_append_rest]
        · rw [Heading.header, Heading.qualifiedName, ← howner]
          rfl
  · rintro ⟨d, rfl, hd, rfl⟩
    have hclauses : clausesOf (d.qualifiedName defaultModule).2 keyColumn none
        (d.properties.toList.map declaration ++ .list (d.columns.map symbolForm) :: rows) =
          .ok (d.autoKeys, d.columnKeys keyColumn, rows) :=
      clausesOf_eq_ok_iff.2 ⟨d.properties, d.columns, rfl, hd.properties_ne, hd.head_columns_ne,
        hd.columns_ne_nil, rfl, rfl⟩
    have hcomment : commentOf (d.comment.toList.map (fun c => .atom (.string c)) ++
        (d.properties.toList.map declaration ++ .list (d.columns.map symbolForm) :: rows)) =
          (d.comment, d.properties.toList.map declaration ++
            .list (d.columns.map symbolForm) :: rows) := by
      refine commentOf_append fun c hc => ?_
      cases hp : d.properties with
      | none =>
        rw [hp] at hc
        cases hc
      | some said =>
        rw [hp] at hc
        cases hc
    rw [headerOf, Heading.items, nameOf_eq_ok_iff.2 ⟨d.name, rfl, rfl⟩]
    dsimp only
    rw [hcomment]
    dsimp only
    rw [Heading.qualifiedName] at hclauses
    rw [hclauses]
    rfl

end Headers

section Cells
variable {σ : Type} {evaluate : Form → EStateM Error σ Value} {table : String} {s s' : σ}

lemma bind_eq_ok_iff {α β : Type} {m : EStateM Error σ α} {f : α → EStateM Error σ β} {b : β} :
    (m >>= f) s = .ok b s' ↔ ∃ a s₁, m s = .ok a s₁ ∧ f a s₁ = .ok b s' := by
  refine ⟨bind_eq_ok, ?_⟩
  rintro ⟨a, s₁, hm, hf⟩
  change EStateM.bind m f s = .ok b s'
  unfold EStateM.bind
  rw [hm]
  exact hf

lemma cell_eq_ok_iff {f : Form} {v : Value} :
    cell evaluate table f s = .ok v s' ↔ HasValue evaluate f s v s' := by
  constructor
  · intro h
    cases f with
    | atom a =>
      cases h
      exact .atom a s
    | var x => cases h
    | globalVar g => exact .globalVar h
    | list xs =>
      unfold cell at h
      dsimp only at h
      cases hv : (Form.list xs).literal? with
      | none =>
        rw [hv] at h
        cases h
      | some v =>
        rw [hv] at h
        cases h
        obtain ⟨as, has, rfl⟩ := Option.map_eq_some_iff.1 hv
        rw [Form.atoms?_eq_some_iff.1 has]
        exact .atoms as s
    | immediate xs => exact .immediate h
  · intro h
    cases h with
    | atom a => rfl
    | atoms xs =>
      rw [cell, Form.literal?, Form.atoms?_map_atom]
      rfl
    | globalVar h => exact h
    | immediate h => exact h

lemma rowCells_eq_ok_iff {fs : List Form} {vs : List Value} :
    rowCells evaluate table fs s = .ok vs s' ↔ InTurn (HasValue evaluate) fs s vs s' := by
  induction fs generalizing s vs with
  | nil =>
    constructor
    · intro h
      cases h
      exact .nil _
    · intro h
      cases h
      rfl
  | cons f fs ih =>
    rw [rowCells, bind_eq_ok_iff]
    constructor
    · rintro ⟨v, s₁, hv, h⟩
      obtain ⟨vs, s₂, hvs, h⟩ := bind_eq_ok h
      cases h
      exact .cons (cell_eq_ok_iff.1 hv) (ih.1 hvs)
    · intro h
      cases h with
      | cons hv hvs =>
        exact ⟨_, _, cell_eq_ok_iff.2 hv, bind_eq_ok_iff.2 ⟨_, _, ih.2 hvs, rfl⟩⟩

/-- Rows are lists of the right width, and their values are stored one behind the other. -/
theorem cellsFrom_eq_ok_iff {header : Header} {number : Nat} {items : List Form}
    {cells : List Value} :
    cellsFrom evaluate header number items s = .ok cells s' ↔
      ∃ rows values, items = rows.map .list ∧ (∀ row ∈ rows, row.length = header.width) ∧
        HaveValues evaluate rows s values s' ∧
        cells = (storedRows header.autoKeys number values).flatten := by
  induction items generalizing number s cells with
  | nil =>
    constructor
    · intro h
      cases h
      exact ⟨[], [], rfl, (fun _ hr => by cases hr), .nil _, rfl⟩
    · rintro ⟨rows, values, hnil, _, hvalues, rfl⟩
      rw [List.map_eq_nil_iff.1 hnil.symm] at hvalues
      cases hvalues
      rfl
  | cons item items ih =>
    constructor
    · intro h
      unfold cellsFrom at h
      cases hrow : item.list? with
      | none =>
        rw [hrow] at h
        cases h
      | some row =>
        rw [hrow] at h
        dsimp only at h
        by_cases hwidth : row.length = header.width
        · rw [if_neg (fun hne => hne hwidth)] at h
          obtain ⟨vs, s₁, hvs, h⟩ := bind_eq_ok h
          obtain ⟨others, s₂, hothers, h⟩ := bind_eq_ok h
          cases h
          obtain ⟨rows, values, rfl, hwidths, hvalues, rfl⟩ := ih.1 hothers
          refine ⟨row :: rows, vs :: values, ?_, ?_, .cons (rowCells_eq_ok_iff.1 hvs) hvalues, ?_⟩
          · rw [Form.list?_eq_some_iff.1 hrow, List.map_cons]
          · exact List.forall_mem_cons.2 ⟨hwidth, hwidths⟩
          · rw [storedRows_cons, List.flatten_cons]
        · rw [if_pos hwidth] at h
          cases h
    · rintro ⟨rows, values, hmap, hwidths, hvalues, rfl⟩
      cases hvalues with
      | nil => cases hmap
      | cons hvs hvalues =>
        cases hmap
        obtain ⟨hwidth, hwidths⟩ := List.forall_mem_cons.1 hwidths
        rw [cellsFrom]
        dsimp only [Form.list?]
        rw [if_neg (fun hne => hne hwidth)]
        refine bind_eq_ok_iff.2 ⟨_, _, rowCells_eq_ok_iff.2 hvs, bind_eq_ok_iff.2
          ⟨_, _, ih.2 ⟨_, _, rfl, hwidths, hvalues, rfl⟩, ?_⟩⟩
        rw [storedRows_cons, List.flatten_cons]
        rfl

end Cells

section Tables
variable {σ : Type} {evaluate : Form → EStateM Error σ Value} {defaultModule keyColumn : String}
  {form : List Form} {s s' : σ}

lemma parts_eq_ok_iff {p : Table.Parts} :
    parts evaluate defaultModule keyColumn form s = .ok p s' ↔
      ∃ (d : Heading) (rows : List (List Form)) (values : List (List Value)),
        form.tail = d.items (rows.map .list) ∧ d.Grammatical keyColumn ∧
        (∀ row ∈ rows, row.length = d.columns.length) ∧ HaveValues evaluate rows s values s' ∧
        p = d.parts defaultModule keyColumn values := by
  constructor
  · intro h
    unfold parts at h
    cases hheader : headerOf defaultModule keyColumn form.tail with
    | error e =>
      rw [hheader] at h
      cases h
    | ok r =>
      obtain ⟨header, forms⟩ := r
      rw [hheader] at h
      obtain ⟨cells, s₁, hcells, h⟩ := bind_eq_ok h
      cases h
      obtain ⟨d, hitems, hd, rfl⟩ := headerOf_eq_ok_iff.1 hheader
      obtain ⟨rows, values, rfl, hwidths, hvalues, rfl⟩ := cellsFrom_eq_ok_iff.1 hcells
      rw [Heading.width_header] at hwidths
      exact ⟨d, rows, values, hitems, hd, hwidths, hvalues, rfl⟩
  · rintro ⟨d, rows, values, hitems, hd, hwidths, hvalues, rfl⟩
    rw [← Heading.width_header d defaultModule keyColumn] at hwidths
    unfold parts
    rw [headerOf_eq_ok_iff.2 ⟨d, hitems, hd, rfl⟩]
    exact bind_eq_ok_iff.2 ⟨_, _, cellsFrom_eq_ok_iff.2 ⟨rows, values, rfl, hwidths, hvalues, rfl⟩,
      rfl⟩

lemma table_eq_ok_iff {t : Table} :
    table evaluate defaultModule keyColumn form s = .ok t s' ↔
      ∃ p, parts evaluate defaultModule keyColumn form s = .ok p s' ∧ Table.build p = .ok t := by
  rw [table, bind_eq_ok_iff]
  constructor
  · rintro ⟨p, s₁, hp, h⟩
    cases hb : Table.build p with
    | error e =>
      rw [hb] at h
      cases h
    | ok t' =>
      rw [hb] at h
      cases h
      exact ⟨p, hp, hb⟩
  · rintro ⟨p, hp, hb⟩
    refine ⟨p, s', hp, ?_⟩
    rw [hb]
    rfl

/-- A definition is written in this way, and its cells have these values: the values come one after
another in source order, the first state being the one before the definition, the last one the one
behind it. -/
structure Accepted (evaluate : Form → EStateM Error σ Value) (keyColumn : String)
    (form : List Form) (s : σ) (d : Heading) (rows : List (List Form))
    (values : List (List Value)) (s' : σ) : Prop where
  written : form.tail = d.items (rows.map .list)
  grammatical : d.Grammatical keyColumn
  width : ∀ row ∈ rows, row.length = d.columns.length
  haveValues : HaveValues evaluate rows s values s'
  nodup_columns : (d.columnKeys keyColumn).Nodup
  /-- The key of a row is what it begins with when it is stored. -/
  nodup_keys : ((storedRows d.autoKeys 1 values).map List.head?).Nodup

/-- Stored rows are as wide as the table. -/
theorem consists_storedRows {d : Heading} {values : List (List Value)}
    (hd : d.Grammatical keyColumn) (hwidth : ∀ row ∈ values, row.length = d.columns.length) :
    (d.parts defaultModule keyColumn values).Consists (storedRows d.autoKeys 1 values) := by
  refine ⟨rfl, ?_, hd.columns_ne_nil⟩
  intro stored hstored
  obtain ⟨i, hi, rfl⟩ := List.mem_mapIdx.1 hstored
  have hrow : values[i].length = d.columns.length := hwidth _ (List.getElem_mem hi)
  change _ = (d.columnKeys keyColumn).length
  rw [Heading.columnKeys]
  cases d.autoKeys with
  | false => simpa using hrow
  | true => simpa using hrow

/-- What a definition says can be indexed exactly if columns and row keys are distinct. -/
theorem accepted_iff_keyed {d : Heading} {rows : List (List Form)} {values : List (List Value)}
    (hwritten : form.tail = d.items (rows.map .list)) (hd : d.Grammatical keyColumn)
    (hwidth : ∀ row ∈ rows, row.length = d.columns.length)
    (hvalues : HaveValues evaluate rows s values s') :
    (d.parts defaultModule keyColumn values).Keyed ↔
      Accepted evaluate keyColumn form s d rows values s' := by
  have hconsists : (d.parts defaultModule keyColumn values).Consists
      (storedRows d.autoKeys 1 values) :=
    consists_storedRows hd (width_of_haveValues hvalues hwidth)
  rw [hconsists.keyed_iff]
  constructor
  · rintro ⟨hc, hr⟩
    exact ⟨hwritten, hd, hwidth, hvalues, hc, hr⟩
  · intro h
    exact ⟨h.nodup_columns, h.nodup_keys⟩

/-- A definition is accepted exactly if it follows the grammar, and the table is then the one of its
name, its comment and its columns with the values of its cells row by row. -/
theorem table_eq_ok_iff_accepted (evaluate : Form → EStateM Error σ Value)
    (defaultModule keyColumn : String) (form : List Form) (s : σ) :
    ((∃ t s', table evaluate defaultModule keyColumn form s = .ok t s') ↔
      ∃ d rows values s', Accepted evaluate keyColumn form s d rows values s') ∧
    ∀ t s', table evaluate defaultModule keyColumn form s = .ok t s' ↔
      ∃ d rows values, Accepted evaluate keyColumn form s d rows values s' ∧
        t.toParts = d.parts defaultModule keyColumn values ∧
        t.columnIndex.bucketCount = bucketCount t.columnCount ∧
        t.rowIndex.bucketCount = bucketCount t.rowCount := by
  have hbuilds : ∀ t s', table evaluate defaultModule keyColumn form s = .ok t s' ↔
      ∃ d rows values, Accepted evaluate keyColumn form s d rows values s' ∧
        t.toParts = d.parts defaultModule keyColumn values ∧
        t.columnIndex.bucketCount = bucketCount t.columnCount ∧
        t.rowIndex.bucketCount = bucketCount t.rowCount := by
    intro t s'
    rw [table_eq_ok_iff]
    constructor
    · rintro ⟨p, hp, hb⟩
      obtain ⟨d, rows, values, hwritten, hd, hwidth, hvalues, rfl⟩ := parts_eq_ok_iff.1 hp
      obtain ⟨hparts, hcounts⟩ := Table.build_eq_ok_iff.1 hb
      have haccepted := (accepted_iff_keyed hwritten hd hwidth hvalues).1 (hparts ▸ t.keyed)
      exact ⟨d, rows, values, haccepted, hparts, hcounts⟩
    · rintro ⟨d, rows, values, h, hbuilt⟩
      exact ⟨_, parts_eq_ok_iff.2 ⟨d, rows, values, h.written, h.grammatical, h.width,
        h.haveValues, rfl⟩, Table.build_eq_ok_iff.2 hbuilt⟩
  refine ⟨⟨?_, ?_⟩, hbuilds⟩
  · rintro ⟨t, s', h⟩
    obtain ⟨d, rows, values, haccepted, _⟩ := (hbuilds t s').1 h
    exact ⟨d, rows, values, s', haccepted⟩
  · rintro ⟨d, rows, values, s', h⟩
    have hkeyed : (d.parts defaultModule keyColumn values).Keyed :=
      (accepted_iff_keyed h.written h.grammatical h.width h.haveValues).2 h
    obtain ⟨t, ht⟩ := Table.exists_buildWith hkeyed _ _
    exact ⟨t, s', table_eq_ok_iff.2 ⟨_, parts_eq_ok_iff.2 ⟨d, rows, values, h.written,
      h.grammatical, h.width, h.haveValues, rfl⟩, ht⟩⟩

end Tables

end Definition

end KeyedTables
