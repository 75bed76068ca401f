import Mathlib.Data.List.Nodup
import TraitScript.Table

/-!
# Tables without repeated names

A table that was built by inserting holds at most one entry for a name. Then its entries say the
same as what is found in it, and their order makes no difference.
-/

namespace TraitScript.Table

variable {α : Type} {table : Table α} {name : String} {value : α}

/-- No two entries have the same name. -/
def Distinct (table : Table α) : Prop := table.names.Nodup

theorem distinct_empty : (∅ : Table α).Distinct := List.nodup_nil

/-- A name is put where it stands, or at the end. -/
theorem names_put (name : String) (value : α) (entries : List (String × α)) :
    (put name value entries).map Prod.fst =
      if name ∈ entries.map Prod.fst then entries.map Prod.fst
      else entries.map Prod.fst ++ [name] := by
  induction entries with
  | nil => simp [put]
  | cons entry rest ih =>
      obtain ⟨key, old⟩ := entry
      by_cases hkey : key = name
      · simp [put, hkey]
      · have hname : ¬ name = key := fun h => hkey h.symm
        simp only [put, if_neg hkey, List.map_cons, ih, List.mem_cons, hname, false_or]
        split <;> rfl

theorem Distinct.insert (h : table.Distinct) (name : String) (value : α) :
    (table.insert name value).Distinct := by
  rw [Distinct, names, Table.insert, names_put]
  split
  next => exact h
  next hnew =>
    refine List.nodup_append.2
      ⟨h, List.nodup_singleton name, fun other hother new hmem heq => hnew ?_⟩
    rwa [← List.mem_singleton.1 hmem, ← heq]

theorem lookup_eq_some_iff {entries : List (String × α)} (h : (entries.map Prod.fst).Nodup) :
    lookup name entries = some value ↔ (name, value) ∈ entries := by
  induction entries with
  | nil => simp [lookup]
  | cons entry rest ih =>
      obtain ⟨key, old⟩ := entry
      rw [List.map_cons, List.nodup_cons] at h
      by_cases hkey : key = name
      · subst hkey
        have hnone : (key, value) ∉ rest := fun hmem => h.1 (List.mem_map.2 ⟨_, hmem, rfl⟩)
        simp [lookup, hnone, eq_comm]
      · have hname : ¬ name = key := fun heq => hkey heq.symm
        simp [lookup, hkey, hname, ih h.2]

/-- What is found are the entries. -/
theorem Distinct.find?_eq_some_iff (h : table.Distinct) :
    table.find? name = some value ↔ (name, value) ∈ table.entries :=
  lookup_eq_some_iff h

theorem Distinct.of_perm (h : table.Distinct) {entries : List (String × α)}
    (hperm : entries.Perm table.entries) : Distinct ⟨entries⟩ :=
  (hperm.map Prod.fst).nodup_iff.2 h

/-- The order of the entries does not show in what is found. -/
theorem Distinct.find?_of_perm (h : table.Distinct) {entries : List (String × α)}
    (hperm : entries.Perm table.entries) (name : String) :
    Table.find? ⟨entries⟩ name = table.find? name := by
  refine Option.ext fun value => ?_
  rw [(h.of_perm hperm).find?_eq_some_iff, h.find?_eq_some_iff, hperm.mem_iff]

/-! ### Walking a table -/

theorem place_perm (rank : String → Nat) (entry : String × α) (entries : List (String × α)) :
    (place rank entry entries).Perm (entry :: entries) := by
  induction entries with
  | nil => exact .refl _
  | cons other rest ih =>
      rw [place]
      split
      · exact (ih.cons other).trans (.swap entry other rest)
      · exact .refl _

/-- Arranging neither adds nor drops an entry. -/
theorem arrange_perm (rank : String → Nat) (table : Table α) :
    (table.arrange rank).entries.Perm table.entries := by
  obtain ⟨entries⟩ := table
  show (entries.foldr (place rank) []).Perm entries
  induction entries with
  | nil => exact .refl _
  | cons entry rest ih => exact (place_perm rank entry _).trans (ih.cons entry)

theorem Distinct.arrange (h : table.Distinct) (rank : String → Nat) :
    (table.arrange rank).Distinct :=
  h.of_perm (arrange_perm rank table)

/-- Entries whose names rank upward. -/
def Ascends (rank : String → Nat) (entries : List (String × α)) : Prop :=
  entries.Pairwise fun entry other => rank entry.1 ≤ rank other.1

theorem Ascends.place {rank : String → Nat} {entries : List (String × α)}
    (h : Ascends rank entries) (entry : String × α) : Ascends rank (place rank entry entries) := by
  induction entries with
  | nil => exact List.pairwise_singleton _ _
  | cons other rest ih =>
      obtain ⟨hother, hrest⟩ := List.pairwise_cons.1 h
      rw [Table.place]
      split
      next hlower =>
        refine List.pairwise_cons.2 ⟨fun e he => ?_, ih hrest⟩
        rcases List.mem_cons.1 ((place_perm rank entry rest).mem_iff.1 he) with rfl | hmem
        · exact Nat.le_of_lt hlower
        · exact hother e hmem
      next hhigher =>
        have hle : rank entry.1 ≤ rank other.1 := Nat.le_of_not_lt hhigher
        refine List.pairwise_cons.2 ⟨fun e he => ?_, h⟩
        rcases List.mem_cons.1 he with rfl | hmem
        · exact hle
        · exact Nat.le_trans hle (hother e hmem)

theorem ascends_arrange (rank : String → Nat) (table : Table α) :
    Ascends rank (table.arrange rank).entries := by
  obtain ⟨entries⟩ := table
  show Ascends rank (entries.foldr (Table.place rank) [])
  induction entries with
  | nil => exact List.Pairwise.nil
  | cons entry rest ih => exact ih.place entry

/-- Every order of the entries comes up under some ranks of the names. -/
theorem Distinct.exists_arrange (h : table.Distinct) {entries : List (String × α)}
    (hperm : entries.Perm table.entries) : ∃ rank, (table.arrange rank).entries = entries := by
  let rank (name : String) : Nat := (entries.map Prod.fst).idxOf name
  have hnodup : (entries.map Prod.fst).Nodup := (hperm.map Prod.fst).nodup_iff.2 h
  have hrank : ∀ (i : Nat) (hi : i < entries.length), rank entries[i].1 = i := by
    intro i hi
    have hname : i < (entries.map Prod.fst).length := by rwa [List.length_map]
    have hat : (entries.map Prod.fst)[i] = entries[i].1 := List.getElem_map ..
    show (entries.map Prod.fst).idxOf entries[i].1 = i
    rw [← hat, hnodup.idxOf_getElem i hname]
  have hascends : Ascends rank entries := by
    refine List.pairwise_iff_getElem.2 fun i j hi hj hlt => ?_
    rw [hrank i hi, hrank j hj]
    exact Nat.le_of_lt hlt
  refine ⟨rank, List.Perm.eq_of_pairwise ?_ (ascends_arrange rank table) hascends
    ((arrange_perm rank table).trans hperm.symm)⟩
  -- names of the same rank are the same, and so are their entries
  intro entry other hentry hother hle hge
  have hmem : entry ∈ entries := hperm.mem_iff.2 ((arrange_perm rank table).mem_iff.1 hentry)
  obtain ⟨i, hi, rfl⟩ := List.mem_iff_getElem.1 hmem
  obtain ⟨j, hj, rfl⟩ := List.mem_iff_getElem.1 hother
  rw [hrank i hi, hrank j hj] at hle hge
  have heq := Nat.le_antisymm hle hge
  subst heq
  rfl

end TraitScript.Table
