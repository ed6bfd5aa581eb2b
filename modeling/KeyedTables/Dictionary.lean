/-!
# Dictionaries

Values under names, one under each name at most. Setting or erasing a name changes what stands under
it and nothing else.
-/
namespace KeyedTables

structure Dictionary (α : Type) where
  entries : List (String × α)
  distinct : (entries.map Prod.fst).Nodup
  deriving DecidableEq, Repr

namespace Dictionary
variable {α β : Type}

def empty : Dictionary α := ⟨[], List.nodup_nil⟩

def names (d : Dictionary α) : List String := d.entries.map Prod.fst

def size (d : Dictionary α) : Nat := d.entries.length

def get? (d : Dictionary α) (name : String) : Option α := d.entries.lookup name

theorem names_replace (es : List (String × α)) (name : String) (a : α) :
    (es.map fun e => if e.1 = name then (name, a) else e).map Prod.fst = es.map Prod.fst := by
  rw [List.map_map]
  apply List.map_congr_left
  intro e _
  by_cases h : e.1 = name
  · simp [h]
  · simp [h]

theorem lookup_isSome_iff (es : List (String × α)) (name : String) :
    (es.lookup name).isSome ↔ name ∈ es.map Prod.fst := by
  rw [List.lookup_isSome_iff, List.mem_map]
  constructor
  · rintro ⟨e, he, hn⟩
    exact ⟨e, he, (beq_iff_eq.1 hn).symm⟩
  · rintro ⟨e, he, hn⟩
    exact ⟨e, he, beq_iff_eq.2 hn.symm⟩

theorem nodup_append_name {es : List (String × α)} {name : String} (a : α)
    (h : (es.map Prod.fst).Nodup) (hn : ¬ (es.lookup name).isSome) :
    ((es ++ [(name, a)]).map Prod.fst).Nodup := by
  rw [lookup_isSome_iff] at hn
  rw [List.map_append, List.nodup_append]
  refine ⟨h, by simp, ?_⟩
  intro x hx y hy hxy
  have hy' : y = name := by simpa using hy
  exact hn (hy' ▸ hxy ▸ hx)

/-- Puts a value under a name, in the place of the one that is there. -/
def set (d : Dictionary α) (name : String) (a : α) : Dictionary α :=
  if h : (d.entries.lookup name).isSome then
    ⟨d.entries.map fun e => if e.1 = name then (name, a) else e, by
      rw [names_replace]; exact d.distinct⟩
  else ⟨d.entries ++ [(name, a)], nodup_append_name a d.distinct h⟩

/-- Takes away what stands under a name. -/
def erase (d : Dictionary α) (name : String) : Dictionary α :=
  ⟨d.entries.filter (·.1 ≠ name), List.Pairwise.sublist
    (List.Sublist.map Prod.fst List.filter_sublist) d.distinct⟩

/-- Applies a function to all values. -/
def map (f : α → β) (d : Dictionary α) : Dictionary β :=
  ⟨d.entries.map fun e => (e.1, f e.2), by
    rw [List.map_map]; exact d.distinct⟩

@[simp] theorem get?_empty (name : String) : (empty : Dictionary α).get? name = none := rfl

theorem isSome_get?_iff {d : Dictionary α} {name : String} :
    (d.get? name).isSome ↔ name ∈ d.names := lookup_isSome_iff d.entries name

theorem lookup_replace (es : List (String × α)) (name other : String) (a : α) :
    (es.map fun e => if e.1 = name then (name, a) else e).lookup other =
      if other = name then (es.lookup name).map fun _ => a else es.lookup other := by
  induction es with
  | nil => simp
  | cons e es ih =>
    obtain ⟨k, w⟩ := e
    by_cases hk : k = name
    · subst hk
      by_cases ho : other = k
      · subst ho; simp
      · have hb : (other == k) = false := by simpa using ho
        simp [List.lookup_cons, ho, hb] at ih ⊢
        exact ih
    · by_cases ho : other = name
      · subst ho
        have hb : (other == k) = false := by simpa using Ne.symm hk
        simp [List.lookup_cons, hk, hb] at ih ⊢
        exact ih
      · simp only [List.map_cons, hk, if_false, List.lookup_cons, ho] at ih ⊢
        cases other == k <;> simp [ih]

theorem lookup_append (es fs : List (String × α)) (name : String) :
    (es ++ fs).lookup name = (es.lookup name).or (fs.lookup name) := by
  induction es with
  | nil => simp
  | cons e es ih =>
    obtain ⟨k, w⟩ := e
    simp only [List.cons_append, List.lookup_cons]
    cases name == k <;> simp [ih]

theorem get?_set (d : Dictionary α) (name other : String) (a : α) :
    (d.set name a).get? other = if other = name then some a else d.get? other := by
  unfold set get?
  split
  · rename_i h
    obtain ⟨w, hw⟩ := Option.isSome_iff_exists.1 h
    simp [lookup_replace, hw]
  · rename_i h
    have hn : d.entries.lookup name = none := Option.not_isSome_iff_eq_none.1 h
    rw [lookup_append]
    by_cases ho : other = name
    · subst ho; simp [hn]
    · have hb : (other == name) = false := by simpa using ho
      simp [List.lookup_cons, ho, hb]

theorem lookup_filter_ne (es : List (String × α)) (name other : String) :
    (es.filter (·.1 ≠ name)).lookup other = if other = name then none else es.lookup other := by
  induction es with
  | nil => simp
  | cons e es ih =>
    obtain ⟨k, w⟩ := e
    by_cases hk : k = name
    · rw [List.filter_cons_of_neg (by simp [hk]), ih]
      by_cases ho : other = name
      · simp [ho]
      · have hb : (other == k) = false := by simp [hk, ho]
        simp [List.lookup_cons, ho, hb]
    · rw [List.filter_cons_of_pos (by simp [hk]), List.lookup_cons, List.lookup_cons, ih]
      by_cases ho : other = name
      · have hb : (other == k) = false := by simp [ho, Ne.symm hk]
        simp only [hb, if_pos ho]
      · simp [ho]

theorem get?_erase (d : Dictionary α) (name other : String) :
    (d.erase name).get? other = if other = name then none else d.get? other :=
  lookup_filter_ne d.entries name other

theorem lookup_map_snd (f : α → β) (es : List (String × α)) (name : String) :
    (es.map fun e => (e.1, f e.2)).lookup name = (es.lookup name).map f := by
  induction es with
  | nil => rfl
  | cons e es ih =>
    obtain ⟨k, w⟩ := e
    simp only [List.map_cons, List.lookup_cons]
    cases name == k <;> simp [ih]

theorem get?_map (f : α → β) (d : Dictionary α) (name : String) :
    (d.map f).get? name = (d.get? name).map f :=
  lookup_map_snd f d.entries name

theorem mem_names_set {d : Dictionary α} {name other : String} {a : α} :
    other ∈ (d.set name a).names ↔ other = name ∨ other ∈ d.names := by
  rw [← isSome_get?_iff, ← isSome_get?_iff, get?_set]
  by_cases h : other = name <;> simp [h]

/-- A name that is there stays where it is. -/
theorem names_set_of_isSome {d : Dictionary α} {name : String} (h : (d.get? name).isSome) (a : α) :
    (d.set name a).names = d.names := by
  have hlookup : (d.entries.lookup name).isSome := h
  rw [set, dif_pos hlookup]
  exact names_replace d.entries name a

theorem mem_names_erase {d : Dictionary α} {name other : String} :
    other ∈ (d.erase name).names ↔ other ≠ name ∧ other ∈ d.names := by
  rw [← isSome_get?_iff, ← isSome_get?_iff, get?_erase]
  by_cases h : other = name <;> simp [h]

@[simp] theorem names_map (f : α → β) (d : Dictionary α) : (d.map f).names = d.names := by
  simp [names, map, List.map_map, Function.comp_def]

theorem length_names (d : Dictionary α) : d.names.length = d.size := List.length_map _

end Dictionary

end KeyedTables
