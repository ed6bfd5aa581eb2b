import KeyedTables.Proofs.Form.Grouping

/-!
# Printing and reading back

The spelling of a form that was read is read as the same form again, unless a floating number stands
in it somewhere: what a floating number is spelled as may be read as a symbol. So two forms that can
be read back are spelled alike only if they are the same.
-/
namespace KeyedTables.Form

mutual

def atoms : Form → List Atom
  | atom a => [a]
  | var _ | globalVar _ => []
  | list fs => itemAtoms fs
  | immediate fs => itemAtoms fs

def itemAtoms : List Form → List Atom
  | [] => []
  | f :: fs => atoms f ++ itemAtoms fs

end

lemma itemAtoms_eq_flatMap (fs : List Form) : itemAtoms fs = fs.flatMap atoms := by
  induction fs with
  | nil => rfl
  | cons f fs ih => rw [itemAtoms, ih, List.flatMap_cons]

@[simp] theorem atoms_ofValue (v : Value) : (ofValue v).atoms = v.atoms := by
  cases v with
  | atom a => rfl
  | multifield xs =>
    rw [ofValue, atoms, itemAtoms_eq_flatMap, List.flatMap_map]
    exact List.flatMap_singleton' xs

mutual

/-- The atoms of a form are those among its tokens. -/
theorem mem_atoms_of_mem_tokens {a : Atom} : ∀ (f : Form), .atom a ∈ f.tokens → a ∈ f.atoms
  | .atom b, h => by
    rw [tokens, List.mem_singleton] at h
    cases h
    exact List.mem_cons_self
  | .var v, h | .globalVar v, h => by
    rw [tokens, List.mem_singleton] at h
    cases h
  | .list fs, h | .immediate fs, h => by
    rw [tokens, List.mem_cons, List.mem_append, List.mem_singleton] at h
    obtain h | h | h := h
    · cases h
    · exact mem_itemAtoms_of_mem_itemTokens fs h
    · cases h

theorem mem_itemAtoms_of_mem_itemTokens {a : Atom} : ∀ (fs : List Form),
    .atom a ∈ itemTokens fs → a ∈ itemAtoms fs
  | [], h => by
    rw [itemTokens] at h
    cases h
  | f :: fs, h => by
    rw [itemTokens, List.mem_append] at h
    rw [itemAtoms, List.mem_append]
    exact h.imp (mem_atoms_of_mem_tokens f) (mem_itemAtoms_of_mem_itemTokens fs)

end

/-- Without floating numbers a form that was read can be read back. -/
theorem Read.readable {f : Form} (h : f.Read) (hf : ∀ a ∈ f.atoms, a.isFloat = false) :
    f.Readable := by
  intro t ht
  obtain hreadable | ⟨x, rfl⟩ := h t ht
  · exact hreadable
  · cases hf _ (mem_atoms_of_mem_tokens f ht)

/-- Forms that can be read back are spelled differently. -/
theorem eq_of_text_eq {f g : Form} (hf : f.Readable) (hg : g.Readable) (h : f.text = g.text) :
    f = g := by
  have hread := readOne_text hf
  rw [h, readOne_text hg] at hread
  cases hread
  rfl

/-- A form that was read from a text, and holds no floating number, is read from its spelling. -/
theorem readOne_text_of_readOne {source : String} {f : Form} (h : readOne source = .ok f)
    (hf : ∀ a ∈ f.atoms, a.isFloat = false) : readOne f.text = .ok f :=
  readOne_text ((read_of_mem_reading (mem_reading_of_readOne h)).readable hf)

/-- Symbols that look like a mark, a sign, a decimal point, a numeral and a qualified name, next to
the tokens they look like; a string of quotes, backslashes and a line break; empty lists. -/
theorem readOne_text_of_lookalikes :
    let source := " ( list =(+ 1 -2)= (. )+5x 1e +5 -9223372036854775808 ; a comment\n ?x:col a:b:c
      ?*a*b* *n*\"\\\"\\\\\n;\\n\"() =( )) "
    ∃ f, readOne source = .ok f ∧ (∀ a ∈ f.atoms, a.isFloat = false) ∧
      f.text = "(list =(+ 1 -2) = (.) +5x 1e 5 -9223372036854775808 ?x:col a:b:c ?*a*b* *n* " ++
        "\"\\\"\\\\\n;n\" () =())" ∧
      readOne f.text = .ok f := by
  intro source
  have hcheck : (readOne source).toOption.any (fun f => f.atoms.all (fun a => !a.isFloat) &&
      f.text = "(list =(+ 1 -2) = (.) +5x 1e 5 -9223372036854775808 ?x:col a:b:c ?*a*b* *n* " ++
        "\"\\\"\\\\\n;n\" () =())") = true := by
    decide +kernel
  cases hread : readOne source with
  | error e =>
    rw [hread] at hcheck
    cases hcheck
  | ok f =>
    rw [hread] at hcheck
    obtain ⟨hatoms, htext⟩ := Bool.and_eq_true_iff.1 hcheck
    have hf : ∀ a ∈ f.atoms, a.isFloat = false := by
      intro a ha
      have hfloat := List.all_eq_true.1 hatoms a ha
      rwa [Bool.not_eq_true'] at hfloat
    exact ⟨f, rfl, hf, of_decide_eq_true htext, readOne_text_of_readOne hread hf⟩

end KeyedTables.Form
