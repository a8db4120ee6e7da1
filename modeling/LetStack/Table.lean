/-! Finite maps from names, kept in the order in which the names were first bound. -/

namespace LetStack

/-- Each name occurs once, so an entry is what a lookup of its name finds. -/
structure Table (α : Type) where
  entries : List (String × α)
  distinct : (entries.map Prod.fst).Nodup

namespace Table

def empty : Table α := ⟨[], List.nodup_nil⟩

instance : Inhabited (Table α) := ⟨empty⟩

def names (table : Table α) : List String := table.entries.map Prod.fst

def length (table : Table α) : Nat := table.entries.length

def lookup (name : String) : List (String × α) → Option α
  | [] => none
  | (other, value) :: rest => if name = other then some value else lookup name rest

def get? (table : Table α) (name : String) : Option α := lookup name table.entries

def contains (table : Table α) (name : String) : Bool := (table.get? name).isSome

def replace (name : String) (value : α) : List (String × α) → List (String × α)
  | [] => [(name, value)]
  | (other, previous) :: rest =>
    if name = other then (name, value) :: rest else (other, previous) :: replace name value rest

def remove (name : String) : List (String × α) → List (String × α)
  | [] => []
  | (other, value) :: rest => if name = other then rest else (other, value) :: remove name rest

theorem mem_names_replace (name query : String) (value : α) (entries : List (String × α)) :
    query ∈ (replace name value entries).map Prod.fst ↔
      query = name ∨ query ∈ entries.map Prod.fst := by
  induction entries with
  | nil => simp [replace]
  | cons entry rest ih =>
      obtain ⟨other, previous⟩ := entry
      by_cases same : name = other
      · subst other
        simp [replace]
      · simp only [replace, same, if_false, List.map_cons, List.mem_cons, ih]
        constructor
        · rintro (first | second | third)
          · exact Or.inr (Or.inl first)
          · exact Or.inl second
          · exact Or.inr (Or.inr third)
        · rintro (first | second | third)
          · exact Or.inr (Or.inl first)
          · exact Or.inl second
          · exact Or.inr (Or.inr third)

theorem nodup_names_replace (name : String) (value : α) (entries : List (String × α))
    (distinct : (entries.map Prod.fst).Nodup) :
    ((replace name value entries).map Prod.fst).Nodup := by
  induction entries with
  | nil => simp [replace]
  | cons entry rest ih =>
      obtain ⟨other, previous⟩ := entry
      simp only [List.map_cons, List.nodup_cons] at distinct
      by_cases same : name = other
      · subst other
        simpa [replace] using distinct
      · simp only [replace, same, if_false, List.map_cons, List.nodup_cons]
        refine ⟨?_, ih distinct.2⟩
        rw [mem_names_replace]
        rintro (equal | member)
        · exact same equal.symm
        · exact distinct.1 member

theorem mem_names_of_mem_remove (name query : String) (entries : List (String × α))
    (member : query ∈ (remove name entries).map Prod.fst) :
    query ∈ entries.map Prod.fst := by
  induction entries with
  | nil => simp [remove] at member
  | cons entry rest ih =>
      obtain ⟨other, value⟩ := entry
      by_cases same : name = other
      · simp only [remove, same, if_true] at member
        exact List.mem_cons_of_mem other member
      · simp only [remove, same, if_false, List.map_cons, List.mem_cons] at member
        rcases member with first | later
        · simp [first]
        · exact List.mem_cons_of_mem other (ih later)

theorem nodup_names_remove (name : String) (entries : List (String × α))
    (distinct : (entries.map Prod.fst).Nodup) :
    ((remove name entries).map Prod.fst).Nodup := by
  induction entries with
  | nil => simp [remove]
  | cons entry rest ih =>
      obtain ⟨other, value⟩ := entry
      simp only [List.map_cons, List.nodup_cons] at distinct
      by_cases same : name = other
      · simpa [remove, same] using distinct.2
      · simp only [remove, same, if_false, List.map_cons, List.nodup_cons]
        exact ⟨fun member => distinct.1 (mem_names_of_mem_remove name other rest member),
          ih distinct.2⟩

/-- A name that is bound already keeps its place; a new one goes to the end. -/
def set (table : Table α) (name : String) (value : α) : Table α :=
  ⟨replace name value table.entries, nodup_names_replace name value table.entries table.distinct⟩

def erase (table : Table α) (name : String) : Table α :=
  ⟨remove name table.entries, nodup_names_remove name table.entries table.distinct⟩

def ofEntries (entries : List (String × α)) : Table α :=
  entries.foldl (fun table entry => table.set entry.1 entry.2) empty

theorem eq_of_entries_eq {left right : Table α} (same : left.entries = right.entries) :
    left = right := by
  cases left
  cases right
  cases same
  rfl

theorem lookup_replace (name query : String) (value : α) (entries : List (String × α)) :
    lookup query (replace name value entries) =
      if query = name then some value else lookup query entries := by
  induction entries with
  | nil => simp [replace, lookup]
  | cons entry rest ih =>
      obtain ⟨other, previous⟩ := entry
      by_cases same : name = other
      · subst other
        by_cases found : query = name <;> simp [replace, lookup, found]
      · by_cases first : query = other
        · subst other
          simp [replace, lookup, same, Ne.symm same]
        · simp [replace, lookup, same, first, ih]

@[simp] theorem get?_empty (name : String) : (empty : Table α).get? name = none := rfl

@[simp] theorem get?_set (table : Table α) (name query : String) (value : α) :
    (table.set name value).get? query = if query = name then some value else table.get? query :=
  lookup_replace name query value table.entries

theorem lookup_eq_none_iff (name : String) (entries : List (String × α)) :
    lookup name entries = none ↔ name ∉ entries.map Prod.fst := by
  induction entries with
  | nil => simp [lookup]
  | cons entry rest ih =>
      obtain ⟨other, value⟩ := entry
      by_cases same : name = other
      · simp [lookup, same]
      · simp [lookup, same, ih]

theorem lookup_remove (name query : String) (entries : List (String × α))
    (distinct : (entries.map Prod.fst).Nodup) :
    lookup query (remove name entries) = if query = name then none else lookup query entries := by
  induction entries with
  | nil => simp [remove, lookup]
  | cons entry rest ih =>
      obtain ⟨other, value⟩ := entry
      simp only [List.map_cons, List.nodup_cons] at distinct
      by_cases same : name = other
      · subst other
        by_cases found : query = name
        · subst query
          simp only [remove, if_true]
          exact (lookup_eq_none_iff name rest).2 distinct.1
        · simp [remove, lookup, found]
      · by_cases first : query = other
        · subst other
          simp [remove, lookup, same, Ne.symm same]
        · simp [remove, lookup, same, first, ih distinct.2]

@[simp] theorem get?_erase (table : Table α) (name query : String) :
    (table.erase name).get? query = if query = name then none else table.get? query :=
  lookup_remove name query table.entries table.distinct

theorem mem_names_set (table : Table α) (name query : String) (value : α) :
    query ∈ (table.set name value).names ↔ query = name ∨ query ∈ table.names :=
  mem_names_replace name query value table.entries

theorem names_replace_of_mem (name : String) (value : α) (entries : List (String × α))
    (member : name ∈ entries.map Prod.fst) :
    (replace name value entries).map Prod.fst = entries.map Prod.fst := by
  induction entries with
  | nil => simp at member
  | cons entry rest ih =>
      obtain ⟨other, previous⟩ := entry
      by_cases same : name = other
      · simp [replace, same]
      · have later : name ∈ rest.map Prod.fst := by simpa [same] using member
        simp [replace, same, ih later]

theorem contains_iff_mem_names (table : Table α) (name : String) :
    table.contains name = true ↔ name ∈ table.names := by
  rw [contains, get?, Option.isSome_iff_ne_none, ne_eq, lookup_eq_none_iff, Decidable.not_not]
  rfl

theorem contains_iff_exists_get? (table : Table α) (name : String) :
    table.contains name = true ↔ ∃ value, table.get? name = some value := by
  rw [contains, Option.isSome_iff_exists]

theorem contains_eq_false_iff (table : Table α) (name : String) :
    table.contains name = false ↔ table.get? name = none := by
  rw [contains, Option.isSome_eq_false_iff, Option.isNone_iff_eq_none]

theorem contains_set_iff (table : Table α) (name query : String) (value : α) :
    (table.set name value).contains query = true ↔
      query = name ∨ table.contains query = true := by
  rw [contains_iff_mem_names, contains_iff_mem_names, mem_names_set]

theorem names_set_of_contains (table : Table α) (name : String) (value : α)
    (bound : table.contains name = true) : (table.set name value).names = table.names :=
  names_replace_of_mem name value table.entries ((contains_iff_mem_names table name).1 bound)

theorem replace_of_not_mem (name : String) (value : α) (entries : List (String × α))
    (absent : name ∉ entries.map Prod.fst) :
    replace name value entries = entries ++ [(name, value)] := by
  induction entries with
  | nil => rfl
  | cons entry rest ih =>
      obtain ⟨different, further⟩ := List.ne_and_not_mem_of_not_mem_cons absent
      rw [replace, if_neg different, ih further, List.cons_append]

theorem entries_set_of_fresh (table : Table α) (name : String) (value : α)
    (fresh : table.contains name = false) :
    (table.set name value).entries = table.entries ++ [(name, value)] :=
  replace_of_not_mem name value table.entries
    ((lookup_eq_none_iff name table.entries).1 ((contains_eq_false_iff table name).1 fresh))

theorem names_prefix_set (table : Table α) (name : String) (value : α) :
    table.names <+: (table.set name value).names := by
  cases bound : table.contains name with
  | true => exact names_set_of_contains table name value bound ▸ List.prefix_rfl
  | false =>
      rw [names, names, entries_set_of_fresh table name value bound, List.map_append]
      exact List.prefix_append _ _

theorem names_replace_eq (name : String) (value : α) (other : β) :
    ∀ (left : List (String × α)) (right : List (String × β)),
      left.map Prod.fst = right.map Prod.fst →
      (replace name value left).map Prod.fst = (replace name other right).map Prod.fst
  | [], [], _ => rfl
  | (first, _) :: left, (_, _) :: right, same => by
      simp only [List.map_cons, List.cons.injEq] at same
      obtain ⟨rfl, rest⟩ := same
      by_cases found : name = first
      · simp [replace, found, rest]
      · simp [replace, found, names_replace_eq name value other left right rest]

theorem names_set_eq {left : Table α} {right : Table β} (same : left.names = right.names)
    (name : String) (value : α) (other : β) :
    (left.set name value).names = (right.set name other).names :=
  names_replace_eq name value other left.entries right.entries same

theorem lookup_append_of_some {name : String} {value : α} {entries : List (String × α)}
    (found : lookup name entries = some value) (more : List (String × α)) :
    lookup name (entries ++ more) = some value := by
  induction entries with
  | nil => simp [lookup] at found
  | cons entry rest ih =>
      obtain ⟨other, first⟩ := entry
      by_cases here : name = other
      · simpa [lookup, here] using found
      · rw [lookup, if_neg here] at found
        rw [List.cons_append, lookup, if_neg here, ih found]

theorem get?_of_prefix {table longer : Table α} {name : String} {value : α}
    (found : table.get? name = some value) (grown : table.entries <+: longer.entries) :
    longer.get? name = some value := by
  obtain ⟨more, same⟩ := grown
  rw [get?, ← same]
  exact lookup_append_of_some found more

theorem lookup_of_mem (entries : List (String × α)) (distinct : (entries.map Prod.fst).Nodup)
    (entry : String × α) (member : entry ∈ entries) :
    lookup entry.1 entries = some entry.2 := by
  induction entries with
  | nil => simp at member
  | cons first rest ih =>
      obtain ⟨other, value⟩ := first
      simp only [List.map_cons, List.nodup_cons] at distinct
      rcases List.mem_cons.1 member with rfl | later
      · simp [lookup]
      · have different : entry.1 ≠ other := fun same =>
          distinct.1 (same ▸ List.mem_map_of_mem later)
        simp [lookup, different, ih distinct.2 later]

end Table

end LetStack
