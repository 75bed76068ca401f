/-!
# Tables of named things

A table holds at most one entry for a name. Frames, scopes, fields and methods are tables; what
matters of one is `find?`, and the lemmas say what each operation does to it.
-/

namespace TraitScript

/-- Entries by name; an earlier entry hides a later one of the same name. -/
structure Table (α : Type) where
  entries : List (String × α)

namespace Table

variable {α β : Type}

instance : EmptyCollection (Table α) := ⟨⟨[]⟩⟩

instance : Inhabited (Table α) := ⟨∅⟩

/-- The entry of a name in a list of entries. -/
def lookup (name : String) : List (String × α) → Option α
  | [] => none
  | (key, value) :: rest => if key = name then some value else lookup name rest

def find? (table : Table α) (name : String) : Option α := lookup name table.entries

def contains (table : Table α) (name : String) : Bool := (table.find? name).isSome

/-- Replaces the entry of a name where it stands, or adds one at the end. -/
def put (name : String) (value : α) : List (String × α) → List (String × α)
  | [] => [(name, value)]
  | (key, old) :: rest =>
    if key = name then (name, value) :: rest else (key, old) :: put name value rest

def insert (table : Table α) (name : String) (value : α) : Table α := ⟨put name value table.entries⟩

def names (table : Table α) : List String := table.entries.map Prod.fst

/-- Puts an entry before the first one whose name does not rank lower. -/
def place (rank : String → Nat) (entry : String × α) : List (String × α) → List (String × α)
  | [] => [entry]
  | other :: rest =>
    if rank other.1 < rank entry.1 then other :: place rank entry rest else entry :: other :: rest

/-- The same entries by the rank of their names; entries of the same rank keep their order. -/
def arrange (rank : String → Nat) (table : Table α) : Table α :=
  ⟨table.entries.foldr (place rank) []⟩

@[simp] theorem find?_empty (name : String) : (∅ : Table α).find? name = none := rfl

theorem lookup_put (name other : String) (value : α) (entries : List (String × α)) :
    lookup other (put name value entries) =
      if name = other then some value else lookup other entries := by
  induction entries with
  | nil => simp [put, lookup]
  | cons entry rest ih =>
    obtain ⟨key, old⟩ := entry
    by_cases h : key = name
    · subst h
      by_cases ho : key = other <;> simp [put, lookup, ho]
    · by_cases ho : key = other
      · subst ho
        have : ¬ name = key := fun e => h e.symm
        simp [put, lookup, h, this]
      · simp [put, lookup, h, ho, ih]

@[simp] theorem find?_insert (table : Table α) (name other : String) (value : α) :
    (table.insert name value).find? other =
      if name = other then some value else table.find? other :=
  lookup_put name other value table.entries

@[simp] theorem contains_insert (table : Table α) (name other : String) (value : α) :
    (table.insert name value).contains other = (decide (name = other) || table.contains other) := by
  by_cases h : name = other <;> simp [contains, h]

theorem isSome_lookup (name : String) (entries : List (String × α)) :
    (lookup name entries).isSome = true ↔ name ∈ entries.map Prod.fst := by
  induction entries with
  | nil => simp [lookup]
  | cons entry rest ih =>
    obtain ⟨key, value⟩ := entry
    by_cases h : key = name
    · simp [lookup, h]
    · have : ¬ name = key := fun e => h e.symm
      simpa [lookup, h, this] using ih

theorem contains_iff_mem_names (table : Table α) (name : String) :
    table.contains name = true ↔ name ∈ table.names :=
  isSome_lookup name table.entries

/-! ### Arranging -/

theorem lookup_place (rank : String → Nat) (name : String) (entry : String × α)
    (entries : List (String × α)) :
    lookup name (place rank entry entries) = lookup name (entry :: entries) := by
  induction entries with
  | nil => rfl
  | cons other rest ih =>
    rw [place]
    split
    next hlower =>
      -- only entries with other names are passed
      have hne : entry.1 ≠ other.1 := fun heq => by simp [heq] at hlower
      by_cases hname : other.1 = name
      · have hentry : ¬ entry.1 = name := fun h => hne (h.trans hname.symm)
        simp [lookup, hname, hentry]
      · simp [lookup, hname, ih]
    next => rfl

/-- Arranging a table does not change what is found in it. -/
@[simp] theorem find?_arrange (rank : String → Nat) (table : Table α) (name : String) :
    (table.arrange rank).find? name = table.find? name := by
  obtain ⟨entries⟩ := table
  show lookup name (entries.foldr (place rank) []) = lookup name entries
  induction entries with
  | nil => rfl
  | cons entry rest ih => rw [List.foldr_cons, lookup_place, lookup, lookup, ih]

end Table
end TraitScript
