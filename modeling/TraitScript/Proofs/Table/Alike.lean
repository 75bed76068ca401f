import Mathlib.Data.List.Forall2
import Mathlib.Data.Option.Basic
import TraitScript.Table

/-!
# Tables with renamed entries

Two tables are alike when they have the same entries in the same order, except that every name of
the first stands in the second under another name and the contents are related. Looking up and
inserting go alike as long as the name asked for is told from the others in the same way on both
sides.
-/

namespace TraitScript

/-! ### Related options -/

theorem rel_cases {α β : Type} {R : α → β → Prop} {a : Option α} {b : Option β}
    (h : Option.Rel R a b) :
    (a = none ∧ b = none) ∨ ∃ x y, a = some x ∧ b = some y ∧ R x y := by
  cases h with
  | none => exact .inl ⟨rfl, rfl⟩
  | some hxy => exact .inr ⟨_, _, rfl, rfl, hxy⟩

theorem rel_weaken {α β : Type} {R S : α → β → Prop} {a : Option α} {b : Option β}
    (h : Option.Rel R a b) (himp : ∀ {a b}, R a b → S a b) : Option.Rel S a b := by
  cases h with
  | some hab => exact .some (himp hab)
  | none => exact .none

/-! ### Related tables -/

namespace Table

variable {α β : Type} {g : String → String} {R S : α → β → Prop} {table : Table α}
  {table' : Table β} {name name' : String}

/-- Entry by entry, the names are changed by a function and the contents are related. -/
def Alike (g : String → String) (R : α → β → Prop) (table : Table α) (table' : Table β) : Prop :=
  List.Forall₂ (fun entry entry' => entry'.1 = g entry.1 ∧ R entry.2 entry'.2) table.entries
    table'.entries

theorem alike_empty : Alike g R ∅ ∅ := List.Forall₂.nil

theorem Alike.imp (h : Alike g R table table') (himp : ∀ {a b}, R a b → S a b) :
    Alike g S table table' :=
  List.Forall₂.imp (fun _ _ hentry => ⟨hentry.1, himp hentry.2⟩) h

/-- On one side a name is found at the place where on the other side another is. -/
def Distinguishes (g : String → String) (table : Table α) (name name' : String) : Prop :=
  ∀ key ∈ table.names, g key = name' ↔ key = name

theorem distinguishes_of_injective (hg : Function.Injective g) (table : Table α) (name : String) :
    Distinguishes g table name (g name) :=
  fun _ _ => hg.eq_iff

theorem Alike.find? (h : Alike g R table table') (hname : Distinguishes g table name name') :
    Option.Rel R (table.find? name) (table'.find? name') := by
  obtain ⟨entries⟩ := table
  obtain ⟨entries'⟩ := table'
  unfold Alike at h
  unfold Distinguishes names at hname
  simp only [Table.find?] at h hname ⊢
  induction h with
  | nil => exact .none
  | @cons entry entry' rest rest' hentry hrest ih =>
      obtain ⟨key, value⟩ := entry
      obtain ⟨key', value'⟩ := entry'
      obtain ⟨hkey, hvalue⟩ := hentry
      dsimp only at hkey hvalue
      have hsame : key' = name' ↔ key = name := by
        rw [hkey]
        exact hname key (List.mem_cons_self ..)
      simp only [lookup, hsame]
      by_cases hfound : key = name
      · rw [if_pos hfound, if_pos hfound]
        exact .some hvalue
      · rw [if_neg hfound, if_neg hfound]
        exact ih fun other hother => hname other (List.mem_cons_of_mem _ hother)

theorem Alike.contains (h : Alike g R table table') (hname : Distinguishes g table name name') :
    table'.contains name' = table.contains name := by
  unfold Table.contains
  rcases rel_cases (h.find? hname) with ⟨hleft, hright⟩ | ⟨value, value', hleft, hright, -⟩
  · rw [hleft, hright]
    rfl
  · rw [hleft, hright]
    rfl

theorem Alike.insert (h : Alike g R table table') (hname : Distinguishes g table name name')
    (hkey : name' = g name) {value : α} {value' : β} (hvalue : R value value') :
    Alike g R (table.insert name value) (table'.insert name' value') := by
  obtain ⟨entries⟩ := table
  obtain ⟨entries'⟩ := table'
  unfold Alike at h ⊢
  unfold Distinguishes names at hname
  simp only [Table.insert] at h hname ⊢
  induction h with
  | nil => exact .cons ⟨hkey, hvalue⟩ .nil
  | @cons entry entry' rest rest' hentry hrest ih =>
      obtain ⟨key, old⟩ := entry
      obtain ⟨key', old'⟩ := entry'
      obtain ⟨hkeys, hold⟩ := hentry
      dsimp only at hkeys hold
      have hsame : key' = name' ↔ key = name := by
        rw [hkeys]
        exact hname key (List.mem_cons_self ..)
      simp only [put, hsame]
      by_cases hfound : key = name
      · rw [if_pos hfound, if_pos hfound]
        exact .cons ⟨hkey, hvalue⟩ hrest
      · rw [if_neg hfound, if_neg hfound]
        exact .cons ⟨hkeys, hold⟩
          (ih fun other hother => hname other (List.mem_cons_of_mem _ hother))

/-- Tables that are walked in the same order stay alike. -/
theorem Alike.arrange (h : Alike g R table table') {rank rank' : String → Nat}
    (hrank : ∀ name, rank' (g name) = rank name) :
    Alike g R (table.arrange rank) (table'.arrange rank') := by
  have hplace : ∀ {entry entry' entries entries'}, entry'.1 = g entry.1 ∧ R entry.2 entry'.2 →
      Alike g R ⟨entries⟩ ⟨entries'⟩ →
        Alike g R ⟨place rank entry entries⟩ ⟨place rank' entry' entries'⟩ := by
    intro entry entry' entries entries' hentry halike
    unfold Alike at halike ⊢
    simp only at halike ⊢
    induction halike with
    | nil => exact .cons hentry .nil
    | @cons other other' rest rest' hother hrest ih =>
        have hsame : rank' other'.1 < rank' entry'.1 ↔ rank other.1 < rank entry.1 := by
          rw [hother.1, hentry.1, hrank, hrank]
        simp only [place, hsame]
        by_cases hlower : rank other.1 < rank entry.1
        · rw [if_pos hlower, if_pos hlower]
          exact .cons hother ih
        · rw [if_neg hlower, if_neg hlower]
          exact .cons hentry (.cons hother hrest)
  obtain ⟨entries⟩ := table
  obtain ⟨entries'⟩ := table'
  show Alike g R ⟨entries.foldr (place rank) []⟩ ⟨entries'.foldr (place rank') []⟩
  unfold Alike at h
  simp only at h
  induction h with
  | nil => exact .nil
  | cons hentry _ ih => exact hplace hentry ih

theorem mem_names_insert {key : String} {value : α} (h : key ∈ (table.insert name value).names) :
    key = name ∨ key ∈ table.names := by
  rw [← contains_iff_mem_names, contains_insert, Bool.or_eq_true, decide_eq_true_eq,
    contains_iff_mem_names] at h
  exact h.imp_left Eq.symm

end Table

end TraitScript
