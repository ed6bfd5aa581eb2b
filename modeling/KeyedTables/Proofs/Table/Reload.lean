import KeyedTables.Proofs.Form.Printing
import KeyedTables.Proofs.Table.Grammar
import KeyedTables.Proofs.Text.Split

/-!
# Tables read back from their written form

A table is written as a definition: its qualified name, its comment, a declaration if keys are
automatic, its columns, and its rows, the made-up column left out. This definition is accepted
without evaluation and builds the same table. It is read from its spelling if its symbols and
numbers can be, as they can if they were read themselves and are not floating.
-/
namespace KeyedTables

namespace Text

lemma prefixes_of_not_mem {name : String} (h : ':' ∉ name.toList) : Prefixes name := by
  refine ⟨fun hcolons => h (hcolons.subset List.mem_cons_self), fun hlast => ?_⟩
  exact h (List.mem_of_getLast? hlast)

lemma join_of_splitQualified? {s owner name : String}
    (h : splitQualified? s = some (owner, name)) : owner ++ "::" ++ name = s := by
  obtain ⟨r, hr, heq⟩ := Option.map_eq_some_iff.1 h
  cases heq
  apply String.toList_inj.1
  rw [eq_of_splitColons? hr]
  simp

end Text

namespace Definition

section Written
variable {d : Heading} {t : Table} {defaultModule keyColumn : String} {values : List (List Value)}

/-- The heading that a table is written with, its columns being given. -/
def writtenHeading (t : Table) (columns : List String) : Heading :=
  ⟨t.qualifiedName, t.comment, if t.autoKeys then some [true] else none, columns⟩

def writtenRows (values : List (List Value)) : List (List Form) :=
  values.map fun row => row.map Form.ofValue

def writtenItems (t : Table) (columns : List String) (values : List (List Value)) : List Form :=
  (writtenHeading t columns).items ((writtenRows values).map .list)

lemma autoKeys_writtenHeading (t : Table) (columns : List String) :
    (writtenHeading t columns).autoKeys = t.autoKeys := by
  cases h : t.autoKeys with
  | false => simp [Heading.autoKeys, writtenHeading, h]
  | true => simp [Heading.autoKeys, writtenHeading, h]

/-- Values are what they are written as, without any evaluation. -/
theorem haveValues_writtenRows {σ : Type} (evaluate : Form → EStateM Error σ Value)
    (values : List (List Value)) (s : σ) :
    HaveValues evaluate (writtenRows values) s values s := by
  have hvalue : ∀ v : Value, HasValue evaluate (Form.ofValue v) s v s := by
    intro v
    cases v with
    | atom a => exact .atom a s
    | multifield xs => exact .atoms xs s
  have hrow : ∀ row : List Value, InTurn (HasValue evaluate) (row.map Form.ofValue) s row s := by
    intro row
    induction row with
    | nil => exact .nil s
    | cons v row ih => exact .cons (hvalue v) ih
  induction values with
  | nil => exact .nil s
  | cons row values ih => exact .cons (hrow row) ih

lemma Heading.columns_mem_items (d : Heading) (rows : List Form) :
    .list (d.columns.map symbolForm) ∈ d.items rows := by
  simp [Heading.items]

lemma Heading.row_mem_items (d : Heading) {rows : List Form} {row : Form} (h : row ∈ rows) :
    row ∈ d.items rows := by
  simp [Heading.items, h]

/-- The written definition says what the table was built from. -/
theorem parts_writtenHeading (ht : t.toParts = d.parts defaultModule keyColumn values)
    (hname : Text.splitQualified? t.qualifiedName = some (t.module, t.name))
    (defaultModule' : String) :
    (writtenHeading t d.columns).parts defaultModule' keyColumn values = t.toParts := by
  have hauto : t.autoKeys = d.autoKeys := congrArg Table.Parts.autoKeys ht
  have howner : (writtenHeading t d.columns).qualifiedName defaultModule' = (t.module, t.name) := by
    rw [Heading.qualifiedName, writtenHeading, hname]
    rfl
  have hcomment : (writtenHeading t d.columns).comment = d.comment :=
    congrArg Table.Parts.comment ht
  rw [Heading.parts, howner, Heading.columnKeys, autoKeys_writtenHeading, hauto, hcomment, ht]
  rfl

/-- A table with the name of a module that may be a prefix is built from what it is written as, and
nothing is evaluated. -/
theorem table_writtenItems {σ τ : Type} {evaluate : Form → EStateM Error σ Value}
    {form : List Form} {s s' : σ} {rows : List (List Form)}
    (h : Accepted evaluate keyColumn form s d rows values s')
    (ht : t.toParts = d.parts defaultModule keyColumn values)
    (hcolumns : t.columnIndex.bucketCount = bucketCount t.columnCount)
    (hrows : t.rowIndex.bucketCount = bucketCount t.rowCount)
    (hname : Text.splitQualified? t.qualifiedName = some (t.module, t.name)) (head : Form)
    (evaluate' : Form → EStateM Error τ Value) (defaultModule' : String) (s₀ : τ) :
    table evaluate' defaultModule' keyColumn (head :: writtenItems t d.columns values) s₀ =
      .ok t s₀ := by
  have hauto : (writtenHeading t d.columns).autoKeys = d.autoKeys := by
    rw [autoKeys_writtenHeading, ht]
    rfl
  have hkeys : (writtenHeading t d.columns).columnKeys keyColumn = d.columnKeys keyColumn := by
    rw [Heading.columnKeys, hauto]
    rfl
  refine ((table_eq_ok_iff_accepted evaluate' defaultModule' keyColumn _ s₀).2 t s₀).2
    ⟨writtenHeading t d.columns, writtenRows values, values, ?_,
      (parts_writtenHeading ht hname defaultModule').symm, hcolumns, hrows⟩
  constructor
  case written => rfl
  case grammatical =>
    constructor
    · rw [writtenHeading]
      split <;> simp
    · exact h.grammatical.head_columns_ne
    · rw [hkeys]
      exact h.grammatical.columns_ne_nil
  case width =>
    intro row hrow
    obtain ⟨vs, hvs, rfl⟩ := List.mem_map.1 hrow
    rw [List.length_map]
    exact width_of_haveValues h.haveValues h.width vs hvs
  case haveValues => exact haveValues_writtenRows evaluate' values s₀
  case nodup_columns =>
    rw [hkeys]
    exact h.nodup_columns
  case nodup_keys =>
    rw [hauto]
    exact h.nodup_keys

end Written

open Form (Spaced)

/-- What a clause of a written definition begins with. -/
theorem isBlank_of_mem_gap : ∀ b ∈ "\n   ".toList, Text.isBlank b = true :=
  List.all_eq_true.1 (by decide)

lemma spaced_clause (fs : List Form) :
    Spaced [.list fs] (Table.clause (fs.map Form.chars)) := by
  have h := Spaced.singleton (by decide) isBlank_of_mem_gap (.list fs)
  rw [Form.chars, Form.itemChars_eq_intercalate] at h
  unfold Table.clause
  simpa using h

lemma spaced_space (f : Form) : Spaced [f] (' ' :: f.chars) := by
  have h : Spaced [f] ([' '] ++ f.chars) := .singleton (by decide) (by simp [Text.isBlank_space]) f
  exact h

section Spelling
variable {d : Heading} {t : Table} {defaultModule keyColumn : String} {values : List (List Value)}

lemma drop_storedRows (autoKeys : Bool) (first : Nat) (rows : List (List Value)) :
    (storedRows autoKeys first rows).map (List.drop (if autoKeys then 1 else 0)) = rows := by
  induction rows generalizing first with
  | nil => rfl
  | cons row rows ih =>
    rw [storedRows_cons, List.map_cons, ih]
    cases autoKeys <;> rfl

/-- The columns and rows that are written are those of the heading. -/
theorem written_columns (ht : t.toParts = d.parts defaultModule keyColumn values) :
    (t.columns.drop (if t.autoKeys then 1 else 0)).map Atom.chars =
      (d.columns.map symbolForm).map Form.chars := by
  have hauto : t.autoKeys = d.autoKeys := congrArg Table.Parts.autoKeys ht
  have hcolumns : t.columns = d.columnKeys keyColumn := congrArg Table.Parts.columns ht
  rw [hauto, hcolumns, Heading.columnKeys]
  cases d.autoKeys <;> simp [symbolForm, Form.chars, Function.comp_def]

lemma written_rows (ht : t.toParts = d.parts defaultModule keyColumn values)
    (hconsists : t.toParts.Consists (storedRows d.autoKeys 1 values)) :
    (((List.range t.rowCount).filterMap t.row?).flatMap fun row =>
      Table.clause ((row.drop (if t.autoKeys then 1 else 0)).map Value.chars)) =
        (writtenRows values).flatMap fun row => Table.clause (row.map Form.chars) := by
  have hauto : t.autoKeys = d.autoKeys := congrArg Table.Parts.autoKeys ht
  rw [Table.filterMap_row?_of_consists hconsists, hauto]
  conv => rhs; rw [← drop_storedRows d.autoKeys 1 values]
  simp only [writtenRows, List.flatMap_map, List.map_map, Function.comp_def, Form.chars_ofValue]

/-- A table is spelled as the definition that it is written as. -/
theorem exists_spaced_of_chars (ht : t.toParts = d.parts defaultModule keyColumn values)
    (hconsists : t.toParts.Consists (storedRows d.autoKeys 1 values)) :
    ∃ cs, Spaced (writtenItems t d.columns values) cs ∧
      t.chars = '(' :: ((symbolForm "deftable").chars ++ cs ++ [')']) := by
  have hname : Spaced [symbolForm t.qualifiedName] (' ' :: t.qualifiedName.toList) :=
    spaced_space (symbolForm t.qualifiedName)
  have hcomment : Spaced (t.comment.toList.map fun c => .atom (.string c))
      (t.comment.elim [] fun c => ' ' :: Text.quote c.toList) := by
    cases t.comment with
    | none => exact .nil
    | some c => exact spaced_space (.atom (.string c))
  have hdeclare : Spaced ((writtenHeading t d.columns).properties.toList.map declaration)
      (if t.autoKeys then "\n   (declare (auto-keys TRUE))".toList else []) := by
    rw [writtenHeading]
    cases t.autoKeys with
    | false => exact .nil
    | true => exact spaced_clause [symbolForm "declare", property true]
  have hcolumns := spaced_clause (d.columns.map symbolForm)
  have hrows : Spaced ((writtenRows values).map .list) _ :=
    Spaced.flatMap spaced_clause (writtenRows values)
  have hitems : Spaced (writtenItems t d.columns values) _ :=
    hname.append (hcomment.append (hdeclare.append (hcolumns.append hrows)))
  refine ⟨_, hitems, ?_⟩
  unfold Table.chars
  dsimp only
  have hhead : "(deftable ".toList = '(' :: ((symbolForm "deftable").chars ++ [' ']) := by decide
  rw [written_columns ht, written_rows ht hconsists, hhead]
  simp only [List.cons_append, List.append_assoc, List.nil_append]
  cases t.comment with
  | none => rfl
  | some c => rfl

end Spelling

section Reading
variable {σ : Type} {evaluate : Form → EStateM Error σ Value} {d : Heading} {form : List Form}
  {rows : List (List Form)} {values : List (List Value)} {s s' : σ} {t : Table}
  {defaultModule keyColumn : String}

/-- Each item has its value at some point. -/
theorem InTurn.exists_of_mem {α β : Type} {R : α → σ → β → σ → Prop} {xs : List α} {ys : List β}
    {s s' : σ} (h : InTurn R xs s ys s') {y : β} (hy : y ∈ ys) :
    ∃ x ∈ xs, ∃ s₁ s₂, R x s₁ y s₂ := by
  induction h with
  | nil => cases hy
  | @cons x xs y' ys s s₁ s₂ head _ ih =>
    obtain rfl | hy := List.mem_cons.1 hy
    · exact ⟨x, List.mem_cons_self, s, s₁, head⟩
    · obtain ⟨x', hx', hR⟩ := ih hy
      exact ⟨x', List.mem_cons_of_mem x hx', hR⟩

/-- A constant is its own value. -/
theorem HasValue.eq_of_literal? {f : Form} {v v' : Value} (h : HasValue evaluate f s v' s')
    (hliteral : f.literal? = some v) : v' = v := by
  cases h with
  | atom a =>
    cases hliteral
    rfl
  | atoms xs =>
    rw [Form.literal?, Form.atoms?_map_atom] at hliteral
    cases hliteral
    rfl
  | globalVar _ => cases hliteral
  | immediate _ => cases hliteral

/-- Whether a cell is a constant without floating numbers. -/
def isExact (cell : Form) : Bool :=
  match cell.literal? with
  | some v => v.atoms.all fun a => !a.isFloat
  | none => false

lemma isExact_iff {cell : Form} :
    isExact cell = true ↔ ∃ v, cell.literal? = some v ∧ ∀ a ∈ v.atoms, a.isFloat = false := by
  unfold isExact
  cases cell.literal? <;> simp

/-- The values of cells that are constants without floating numbers can be read back, if the cells
were read. -/
theorem readable_of_haveValues (hread : ∀ row ∈ rows, ∀ cell ∈ row, cell.Read)
    (hexact : ∀ row ∈ rows, ∀ cell ∈ row, isExact cell = true)
    (hvalues : HaveValues evaluate rows s values s') :
    ∀ row ∈ writtenRows values, ∀ f ∈ row, f.Readable := by
  intro row' hrow' f hf
  obtain ⟨vs, hvs, rfl⟩ := List.mem_map.1 hrow'
  obtain ⟨v, hv, rfl⟩ := List.mem_map.1 hf
  obtain ⟨row, hrow, _, _, hrowValues⟩ := InTurn.exists_of_mem hvalues hvs
  obtain ⟨cell, hcell, _, _, hvalue⟩ := InTurn.exists_of_mem hrowValues hv
  obtain ⟨v', hliteral, hfloat⟩ := isExact_iff.1 (hexact row hrow cell hcell)
  obtain rfl := hvalue.eq_of_literal? hliteral
  obtain rfl := Form.eq_ofValue_of_literal? hliteral
  exact (hread row hrow _ hcell).readable (Form.atoms_ofValue _ ▸ hfloat)

lemma readable_symbolForm {name : String} (h : (Token.atom (.symbol name)).Readable) :
    (symbolForm name).Readable := Form.allTokens_atom_iff.2 h

/-- The words that every written definition is made of. -/
theorem readable_keyword : ∀ word ∈ ["deftable", "declare", "auto-keys", "TRUE"],
    (symbolForm word).Readable := by
  have h : ∀ word ∈ ["deftable", "declare", "auto-keys", "TRUE"], word.toList ≠ [] ∧
      word.toList.all Token.isWordChar = true ∧ word.toList.head? ≠ some '?' ∧
        Number.ofChars? word.toList = none := by decide
  intro word hword
  refine readable_symbolForm (Token.readable_symbol_iff.2 ?_)
  simpa only [List.all_eq_true] using h word hword

/-- What a table is written as can be read back, if name, columns and values can. -/
theorem readable_writtenItems (hname : (Token.atom (.symbol t.qualifiedName)).Readable)
    (hcolumns : ∀ name ∈ d.columns, (Token.atom (.symbol name)).Readable)
    (hvalues : ∀ row ∈ writtenRows values, ∀ f ∈ row, f.Readable) :
    ∀ f ∈ writtenItems t d.columns values, f.Readable := by
  have hlist : ∀ {fs : List Form}, (∀ f ∈ fs, f.Readable) → (Form.list fs).Readable := fun h =>
    Form.allTokens_list_iff.2 ⟨trivial, h, trivial⟩
  have hdeclaration : (declaration [true]).Readable := by
    refine hlist (List.forall_mem_cons.2 ⟨readable_keyword "declare" (by decide), ?_⟩)
    refine List.forall_mem_singleton.2 (hlist (List.forall_mem_cons.2 ⟨?_, ?_⟩))
    · exact readable_keyword "auto-keys" (by decide)
    · exact List.forall_mem_singleton.2 (readable_keyword "TRUE" (by decide))
  unfold writtenItems Heading.items
  simp only [List.forall_mem_cons, List.forall_mem_append]
  refine ⟨readable_symbolForm hname, ?_, ?_, ?_, ?_⟩
  · intro f hf
    obtain ⟨c, _, rfl⟩ := List.mem_map.1 hf
    exact Form.allTokens_atom_iff.2 trivial
  · intro f hf
    obtain ⟨said, hsaid, rfl⟩ := List.mem_map.1 hf
    have heq : said = [true] := by
      rw [writtenHeading] at hsaid
      split at hsaid
      · simpa using hsaid
      · simp at hsaid
    rw [heq]
    exact hdeclaration
  · refine hlist fun f hf => ?_
    obtain ⟨name, hname, rfl⟩ := List.mem_map.1 hf
    exact readable_symbolForm (hcolumns name hname)
  · intro f hf
    obtain ⟨row, hrow, rfl⟩ := List.mem_map.1 hf
    exact hlist (hvalues row hrow)

/-- The qualified name of a table is divided into its module and its name, and can be read back, if
it was written so, or the default module may be a prefix. -/
theorem splitQualified?_qualifiedName (hname : (Token.atom (.symbol d.name)).Readable)
    (hdefault : Text.splitQualified? d.name = none →
      Text.Prefixes defaultModule ∧ (Token.atom (.symbol defaultModule)).Readable)
    (ht : t.toParts = d.parts defaultModule keyColumn values) :
    Text.splitQualified? t.qualifiedName = some (t.module, t.name) ∧
      (Token.atom (.symbol t.qualifiedName)).Readable := by
  have howner : (t.module, t.name) = d.qualifiedName defaultModule := by
    rw [ht]
    rfl
  rw [Heading.qualifiedName] at howner
  cases hsplit : Text.splitQualified? d.name with
  | some r =>
    rw [hsplit, Option.getD_some] at howner
    rw [← howner] at hsplit
    have hjoin : t.qualifiedName = d.name := Text.join_of_splitQualified? hsplit
    rw [hjoin]
    exact ⟨hsplit, hname⟩
  | none =>
    rw [hsplit, Option.getD_none] at howner
    obtain ⟨hmodule, hlocal⟩ := Prod.mk.inj howner
    obtain ⟨hprefixes, hreadable⟩ := hdefault hsplit
    rw [Table.qualifiedName, hmodule, hlocal]
    exact ⟨Text.splitQualified?_join_iff.2 hprefixes, Token.readable_join hreadable hname⟩

end Reading

end Definition

/-- A table that was built from a definition that was read is read back from its written form, and
built again without any evaluation, if its cells are constants without floating numbers, and its
name has a module, or the default module is a symbol without colons. -/
theorem table_reloads {σ : Type} {evaluate : Form → EStateM Error σ Value} {source : String}
    {defaultModule keyColumn : String} {form : List Form} {s s' : σ} {t : Table}
    (hread : .list form ∈ (Form.reading source).values)
    (htable : Definition.table evaluate defaultModule keyColumn form s = .ok t s')
    (hexact : ∀ row, .list row ∈ form.tail → ∀ cell ∈ row, Definition.isExact cell = true)
    (hname : (∃ name, form.tail.head? = some (.atom (.symbol name)) ∧
        (Text.splitQualified? name).isSome = true) ∨
      (Form.readOne defaultModule = .ok (.atom (.symbol defaultModule)) ∧
        ':' ∉ defaultModule.toList)) :
    ∃ items, Form.readOne t.text = .ok (.list items) ∧
      ∀ {τ : Type} (evaluate' : Form → EStateM Error τ Value) (defaultModule' : String) (s₀ : τ),
        Definition.table evaluate' defaultModule' keyColumn items s₀ = .ok t s₀ := by
  obtain ⟨d, rows, values, h, ht, hcolumns, hrows⟩ :=
    ((Definition.table_eq_ok_iff_accepted evaluate defaultModule keyColumn form s).2 t s').1 htable
  have hread' : ∀ f ∈ d.items (rows.map .list), f.Read := fun f hf =>
    (Form.read_of_mem_reading hread).of_mem_list (List.mem_of_mem_tail (h.written ▸ hf))
  rw [h.written] at hexact hname
  have hsymbol : (Token.atom (.symbol d.name)).Readable :=
    (hread' _ List.mem_cons_self).readable_symbol
  have hcolumn : ∀ name ∈ d.columns, (Token.atom (.symbol name)).Readable := fun name hmem =>
    ((hread' _ (d.columns_mem_items _)).of_mem_list (List.mem_map_of_mem hmem)).readable_symbol
  have hrow : ∀ row ∈ rows, .list row ∈ d.items (rows.map .list) := fun row hmem =>
    d.row_mem_items (List.mem_map_of_mem hmem)
  have hvalues := Definition.readable_of_haveValues
    (fun row hmem cell hcell => (hread' _ (hrow row hmem)).of_mem_list hcell)
    (fun row hmem => hexact row (hrow row hmem)) h.haveValues
  have hdefault : Text.splitQualified? d.name = none →
      Text.Prefixes defaultModule ∧ (Token.atom (.symbol defaultModule)).Readable := by
    intro hnone
    obtain ⟨name, hhead, hsome⟩ | ⟨hsingle, hcolon⟩ := hname
    · cases hhead
      rw [hnone] at hsome
      cases hsome
    · exact ⟨Text.prefixes_of_not_mem hcolon,
        (Form.read_of_mem_reading (Form.mem_reading_of_readOne hsingle)).readable_symbol⟩
  obtain ⟨hsplit, hqualified⟩ := Definition.splitQualified?_qualifiedName hsymbol hdefault ht
  have hconsists := ht ▸ Definition.consists_storedRows h.grammatical
    (Definition.width_of_haveValues h.haveValues h.width)
  obtain ⟨cs, hspaced, hchars⟩ := Definition.exists_spaced_of_chars ht hconsists
  refine ⟨Definition.symbolForm "deftable" :: Definition.writtenItems t d.columns values, ?_,
    Definition.table_writtenItems h ht hcolumns hrows hsplit _⟩
  rw [Table.text, hchars]
  exact Form.readOne_of_spaced (Definition.readable_keyword "deftable" (by decide))
    (Definition.readable_writtenItems hqualified hcolumn hvalues) hspaced

/-- A table with automatic keys, whose comment and cells hold quotes, backslashes, a line break and
nothing at all, and whose symbols look like a mark and a numeral. -/
theorem table_reloads_of_quotes_and_empty_cells :
    let source := "(deftable prices \"in \\\"coins\\\"\" (declare (auto-keys TRUE)) (item note)
      (= \"a\\\\b\") (-5 ()) (1e (x \"\n\" 7)))"
    let refuse : Form → EStateM Error Unit Value := fun _ => throw .breakOutsideQuery
    ∃ form t items, .list form ∈ (Form.reading source).values ∧
      Definition.table refuse "MAIN" "key" form () = .ok t () ∧
        (∀ row, .list row ∈ form.tail → ∀ cell ∈ row, Definition.isExact cell = true) ∧
          Form.readOne "MAIN" = .ok (.atom (.symbol "MAIN")) ∧ t.rowCount = 3 ∧
            Form.readOne t.text = .ok (.list items) ∧
              Definition.table refuse "OTHER" "key" items () = .ok t () := by
  intro source refuse
  have hcheck : (Form.reading source).values.any (fun f => f.list?.any fun form =>
      (form.tail.all fun row => (row.list?.getD []).all Definition.isExact) &&
        ((Definition.table refuse "MAIN" "key" form).run' ()).any (·.rowCount = 3)) = true := by
    decide +kernel
  obtain ⟨f, hread, hcheck⟩ := List.any_eq_true.1 hcheck
  obtain ⟨form, hform, hcheck⟩ := (Option.any_eq_true _ _).1 hcheck
  obtain ⟨hexact, hcheck⟩ := Bool.and_eq_true_iff.1 hcheck
  obtain ⟨t, ht, hrows⟩ := (Option.any_eq_true _ _).1 hcheck
  obtain rfl := Form.list?_eq_some_iff.1 hform
  have htable : Definition.table refuse "MAIN" "key" form () = .ok t () := by
    unfold EStateM.run' at ht
    split at ht
    · rename_i v s hv
      cases ht
      exact hv
    · cases ht
  have hexact : ∀ row, .list row ∈ form.tail → ∀ cell ∈ row, Definition.isExact cell = true :=
    fun row hrow => List.all_eq_true.1 (List.all_eq_true.1 hexact (.list row) hrow)
  have hmain : Form.readOne "MAIN" = .ok (.atom (.symbol "MAIN")) :=
    Form.readOne_text (f := .atom (.symbol "MAIN")) (Definition.readable_symbolForm
      (Token.readable_symbol_iff.2 ⟨by decide, List.all_eq_true.1 (by decide), by decide, rfl⟩))
  obtain ⟨items, htext, hreload⟩ := table_reloads hread htable hexact (Or.inr ⟨hmain, by decide⟩)
  exact ⟨form, t, items, hread, htable, hexact, hmain, of_decide_eq_true hrows, htext,
    hreload refuse "OTHER" ()⟩

end KeyedTables
