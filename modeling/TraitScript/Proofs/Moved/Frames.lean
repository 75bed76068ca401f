import Mathlib.Order.Basic
import TraitScript.Proofs.Value.Like

/-!
# Frames in different places

Two runs that do the same need not make the same frames. Which frames of the one stand for which
frames of the other is kept in a relation. Values correspond when their functions have corresponding
frames; that is all by which values can lead to a frame.

Frames that no value leads to are kept apart, in a list from the innermost outward: each of them
lies in one further out or in a frame that values lead to. These can be forgotten from the inside
on, and a frame can take the place of the innermost one.
-/

namespace TraitScript

/-- Which frames of one run stand for which frames of another. -/
abbrev FramePairs := FrameId → FrameId → Prop

/-! ### Values -/

/-- The same function in a frame that stands for its own. -/
structure Closure.Moved (P : FramePairs) (closure closure' : Closure) : Prop where
  id : closure'.id = closure.id
  decl : closure'.decl = closure.decl
  isInitializer : closure'.isInitializer = closure.isInitializer
  frame : P closure.frame closure'.frame

abbrev Class.Moved (P : FramePairs) (definition definition' : Class) : Prop :=
  definition.Like (Closure.Moved P) definition'

abbrev MethodTable.Moved (P : FramePairs) (methods methods' : MethodTable) : Prop :=
  methods.Like (Closure.Moved P) methods'

/-- The same value but for the frames of its functions. -/
abbrev Value.Moved (P : FramePairs) (v v' : Value) : Prop :=
  v.Like (Closure.Moved P) (Closure.Moved P) v'

section Values

variable {P P' : FramePairs}

theorem Closure.Moved.resembles {closure closure' : Closure} (h : closure.Moved P closure') :
    closure.Resembles closure' where
  id := h.id
  name? := by rw [Closure.name?, h.decl, Closure.name?]
  arity := by rw [Closure.arity, h.decl, Closure.arity]
  isGetter := by rw [Closure.isGetter, h.decl, Closure.isGetter]

variable (hle : P ≤ P')

include hle

theorem Closure.Moved.mono {closure closure' : Closure} (h : closure.Moved P closure') :
    closure.Moved P' closure' :=
  ⟨h.id, h.decl, h.isInitializer, hle _ _ h.frame⟩

theorem MethodTable.Moved.mono {methods methods' : MethodTable} (h : methods.Moved P methods') :
    methods.Moved P' methods' :=
  MethodTable.Like.imp (Closure.Moved.mono hle) h

theorem Class.Moved.mono {definition definition' : Class} (h : definition.Moved P definition') :
    definition.Moved P' definition' :=
  Class.Like.imp (Closure.Moved.mono hle) h

theorem Value.Moved.mono {v v' : Value} (h : v.Moved P v') : v.Moved P' v' :=
  Value.Like.imp (Closure.Moved.mono hle) (Closure.Moved.mono hle) h

theorem Value.Moved.mono_all {values values' : List Value}
    (h : List.Forall₂ (Value.Moved P) values values') :
    List.Forall₂ (Value.Moved P') values values' :=
  h.imp fun _ _ hv => Value.Moved.mono hle hv

end Values

/-! ### Tables by what is found -/

namespace Table

variable {α β : Type} {R R' : α → β → Prop} {table : Table α} {table' : Table β}

/-- In both tables the same names are found, with related contents. -/
def Matches (R : α → β → Prop) (table : Table α) (table' : Table β) : Prop :=
  ∀ name, Option.Rel R (table.find? name) (table'.find? name)

theorem matches_empty : Matches R ∅ ∅ := fun _ => .none

theorem Matches.imp (h : Matches R table table') (himp : ∀ {a b}, R a b → R' a b) :
    Matches R' table table' :=
  fun name => rel_weaken (h name) himp

theorem Matches.contains (h : Matches R table table') (name : String) :
    table'.contains name = table.contains name := by
  unfold Table.contains
  rcases rel_cases (h name) with ⟨hleft, hright⟩ | ⟨a, b, hleft, hright, -⟩
  · rw [hleft, hright]
    rfl
  · rw [hleft, hright]
    rfl

theorem Matches.insert (h : Matches R table table') (name : String) {a : α} {b : β} (hab : R a b) :
    Matches R (table.insert name a) (table'.insert name b) := by
  intro other
  rw [find?_insert, find?_insert]
  split
  · exact .some hab
  · exact h other

end Table

/-- The variables of corresponding frames. -/
abbrev SlotsMatch (P : FramePairs) (slots slots' : Table (Option Value)) : Prop :=
  Table.Matches (Option.Rel (Value.Moved P)) slots slots'

theorem SlotsMatch.empty (P : FramePairs) : SlotsMatch P ∅ ∅ := Table.matches_empty

theorem SlotsMatch.mono {P P' : FramePairs} (hle : P ≤ P') {slots slots' : Table (Option Value)}
    (h : SlotsMatch P slots slots') :
    SlotsMatch P' slots slots' :=
  Table.Matches.imp h fun hvalue => rel_weaken hvalue fun hv => Value.Moved.mono hle hv

/-! ### Stores -/

/-- Frames that values lead to, and further ones. -/
def FramePairs.with (P : FramePairs) (own : List (FrameId × FrameId)) : FramePairs :=
  fun a b => P a b ∨ (a, b) ∈ own

theorem FramePairs.with_suffix {P : FramePairs} {own inner : List (FrameId × FrameId)}
    (hown : own <:+ inner) : P.with own ≤ P.with inner :=
  fun _ _ h => h.imp_right fun hmem => hown.subset hmem

theorem FramePairs.with_mono {P P' : FramePairs} (hle : P ≤ P') (own : List (FrameId × FrameId)) :
    P.with own ≤ P'.with own :=
  fun _ _ h => h.imp_left (hle _ _)

/-- With a pair of frames that was not there. -/
def FramePairs.insert (P : FramePairs) (a b : FrameId) : FramePairs :=
  fun c d => P c d ∨ (c = a ∧ d = b)

theorem FramePairs.le_insert (P : FramePairs) (a b : FrameId) : P ≤ P.insert a b := fun _ _ => .inl

/-- Neither frame stands for another, and neither has one that stands for it. -/
def FramePairs.Lacks (P : FramePairs) (a b : FrameId) : Prop := ∀ ⦃c d⦄, P c d → c ≠ a ∧ d ≠ b

/-- Corresponding frames bind the same, and frames around corresponding ones correspond. -/
structure FrameStore.Moved (P : FramePairs) (own : List (FrameId × FrameId))
    (store store' : FrameStore Value) : Prop where
  range : ∀ {a b}, P.with own a b → a < store.size ∧ b < store'.size
  slots : ∀ {a b}, P.with own a b → SlotsMatch P (store.slots a) (store'.slots b)
  enclosing : ∀ {a b}, P a b → Option.Rel P (store.enclosing? a) (store'.enclosing? b)
  single : ∀ {a b c d}, P a b → P c d → (a = c ↔ b = d)
  /-- A frame that no value leads to lies in a frame further out, for which it is not taken. -/
  nested : ∀ {a b rest}, (a, b) :: rest <:+ own →
    (P.with rest).Lacks a b ∧ Option.Rel (P.with rest) (store.enclosing? a) (store'.enclosing? b)

namespace FrameStore.Moved

variable {P : FramePairs} {own rest : List (FrameId × FrameId)} {store store' : FrameStore Value}
  {a b c d : FrameId}

/-- Frames are forgotten from the inside on. -/
theorem outward (h : store.Moved P own store') (hrest : rest <:+ own) :
    store.Moved P rest store' where
  range hab := h.range (FramePairs.with_suffix hrest _ _ hab)
  slots hab := h.slots (FramePairs.with_suffix hrest _ _ hab)
  enclosing := h.enclosing
  single := h.single
  nested hsuffix := h.nested (hsuffix.trans hrest)

/-- One frame stands for one frame. -/
theorem single_with (h : store.Moved P own store') (hab : P.with own a b) (hcd : P.with own c d) :
    a = c ↔ b = d := by
  induction own with
  | nil => exact h.single (hab.resolve_right List.not_mem_nil) (hcd.resolve_right List.not_mem_nil)
  | cons head tail ih =>
      obtain ⟨e, f⟩ := head
      have hlacks := (h.nested (List.suffix_refl _)).1
      have hcases : ∀ {a b}, P.with ((e, f) :: tail) a b → (a = e ∧ b = f) ∨ P.with tail a b := by
        rintro a b (hP | hmem)
        · exact .inr (.inl hP)
        · rcases List.mem_cons.1 hmem with heq | htail
          · cases heq
            exact .inl ⟨rfl, rfl⟩
          · exact .inr (.inr htail)
      rcases hcases hab with ⟨rfl, rfl⟩ | hab' <;> rcases hcases hcd with ⟨rfl, rfl⟩ | hcd'
      · exact ⟨fun _ => rfl, fun _ => rfl⟩
      · exact ⟨fun heq => ((hlacks hcd').1 heq.symm).elim,
          fun heq => ((hlacks hcd').2 heq.symm).elim⟩
      · exact ⟨fun heq => ((hlacks hab').1 heq).elim, fun heq => ((hlacks hab').2 heq).elim⟩
      · exact ih (h.outward (List.suffix_cons _ _)) hab' hcd'

/-- The frames around corresponding frames. -/
theorem enclosing_with (h : store.Moved P own store') (hab : P.with own a b) :
    Option.Rel (P.with own) (store.enclosing? a) (store'.enclosing? b) := by
  rcases hab with hP | hmem
  · exact rel_weaken (h.enclosing hP) .inl
  · obtain ⟨inner, outer, rfl⟩ := List.append_of_mem hmem
    have hsuffix : outer <:+ inner ++ (a, b) :: outer :=
      (List.suffix_cons _ _).trans (List.suffix_append _ _)
    exact rel_weaken (h.nested (List.suffix_append _ _)).2 fun haround =>
      FramePairs.with_suffix hsuffix _ _ haround

theorem lacks_size (h : store.Moved P own store') : (P.with own).Lacks store.size store'.size :=
  fun _ _ hab => ⟨Nat.ne_of_lt (h.range hab).1, Nat.ne_of_lt (h.range hab).2⟩

/-! ### New frames -/

/-- A frame of one run alone, which stands for none. -/
theorem add_left (h : store.Moved P own store') (frame : Frame Value) :
    (store.add frame).Moved P own store' where
  range hab := ⟨Nat.lt_of_lt_of_eq (Nat.lt_succ_of_lt (h.range hab).1) (store.size_add frame).symm,
    (h.range hab).2⟩
  slots hab := by
    rw [slots_add, if_neg (Nat.ne_of_lt (h.range hab).1)]
    exact h.slots hab
  enclosing hab := by
    rw [enclosing?_add, if_neg (Nat.ne_of_lt (h.range (.inl hab)).1)]
    exact h.enclosing hab
  single := h.single
  nested hsuffix := by
    rw [enclosing?_add,
      if_neg (Nat.ne_of_lt (h.range (.inr (hsuffix.subset (List.mem_cons_self ..)))).1)]
    exact h.nested hsuffix

theorem add_right (h : store.Moved P own store') (frame : Frame Value) :
    store.Moved P own (store'.add frame) where
  range hab :=
    ⟨(h.range hab).1, Nat.lt_of_lt_of_eq (Nat.lt_succ_of_lt (h.range hab).2)
      (store'.size_add frame).symm⟩
  slots hab := by
    rw [slots_add, if_neg (Nat.ne_of_lt (h.range hab).2)]
    exact h.slots hab
  enclosing hab := by
    rw [enclosing?_add, if_neg (Nat.ne_of_lt (h.range (.inl hab)).2)]
    exact h.enclosing hab
  single := h.single
  nested hsuffix := by
    rw [enclosing?_add,
      if_neg (Nat.ne_of_lt (h.range (.inr (hsuffix.subset (List.mem_cons_self ..)))).2)]
    exact h.nested hsuffix

/-- A frame that no value leads to becomes the innermost. -/
theorem cons (h : store.Moved P own store') (hsize : a < store.size ∧ b < store'.size)
    (hlacks : (P.with own).Lacks a b) (hslots : SlotsMatch P (store.slots a) (store'.slots b))
    (haround : Option.Rel (P.with own) (store.enclosing? a) (store'.enclosing? b)) :
    store.Moved P ((a, b) :: own) store' := by
  have hcases : ∀ {c d}, P.with ((a, b) :: own) c d → (c = a ∧ d = b) ∨ P.with own c d := by
    rintro c d (hP | hmem)
    · exact .inr (.inl hP)
    · rcases List.mem_cons.1 hmem with heq | htail
      · cases heq
        exact .inl ⟨rfl, rfl⟩
      · exact .inr (.inr htail)
  refine ⟨fun hcd => ?_, fun hcd => ?_, h.enclosing, h.single, fun hsuffix => ?_⟩
  · rcases hcases hcd with ⟨rfl, rfl⟩ | hcd'
    · exact hsize
    · exact h.range hcd'
  · rcases hcases hcd with ⟨rfl, rfl⟩ | hcd'
    · exact hslots
    · exact h.slots hcd'
  · rcases List.suffix_cons_iff.1 hsuffix with heq | hsuffix'
    · cases heq
      exact ⟨hlacks, haround⟩
    · exact h.nested hsuffix'

/-- Values may lead to a frame from now on. -/
theorem insert (h : store.Moved P own store') (hsize : a < store.size ∧ b < store'.size)
    (hlacks : (P.with own).Lacks a b) (hslots : SlotsMatch P (store.slots a) (store'.slots b))
    (haround : Option.Rel P (store.enclosing? a) (store'.enclosing? b)) :
    store.Moved (P.insert a b) own store' := by
  have hle := P.le_insert a b
  have hcases : ∀ {own c d}, (P.insert a b).with own c d → (c = a ∧ d = b) ∨ P.with own c d := by
    rintro own c d ((hP | heq) | hmem)
    · exact .inr (.inl hP)
    · exact .inl heq
    · exact .inr (.inr hmem)
  refine ⟨fun hcd => ?_, fun hcd => ?_, fun hcd => ?_, fun hcd hef => ?_, fun hsuffix => ?_⟩
  · rcases hcases hcd with ⟨rfl, rfl⟩ | hcd'
    · exact hsize
    · exact h.range hcd'
  · rcases hcases hcd with ⟨rfl, rfl⟩ | hcd'
    · exact hslots.mono hle
    · exact (h.slots hcd').mono hle
  · rcases hcd with hcd' | ⟨rfl, rfl⟩
    · exact rel_weaken (h.enclosing hcd') (hle _ _)
    · exact rel_weaken haround (hle _ _)
  · rcases hcd with hcd' | ⟨rfl, rfl⟩ <;> rcases hef with hef' | ⟨rfl, rfl⟩
    · exact h.single hcd' hef'
    · exact ⟨fun heq => ((hlacks (.inl hcd')).1 heq).elim,
        fun heq => ((hlacks (.inl hcd')).2 heq).elim⟩
    · exact ⟨fun heq => ((hlacks (.inl hef')).1 heq.symm).elim,
        fun heq => ((hlacks (.inl hef')).2 heq.symm).elim⟩
    · exact ⟨fun _ => rfl, fun _ => rfl⟩
  · obtain ⟨hnew, haround'⟩ := h.nested hsuffix
    refine ⟨fun c d hcd => ?_, rel_weaken haround' fun hP => FramePairs.with_mono hle _ _ _ hP⟩
    rcases hcases hcd with ⟨rfl, rfl⟩ | hcd'
    · obtain ⟨hc, hd⟩ := hlacks (.inr (hsuffix.subset (List.mem_cons_self ..)))
      exact ⟨hc.symm, hd.symm⟩
    · exact hnew hcd'

section Both

variable {slots slots' : Table (Option Value)} {around around' : Option FrameId}

theorem slots_last (store : FrameStore Value) (frame : Frame Value) :
    (store.add frame).slots store.size = frame.slots := by
  rw [slots_add, if_pos rfl]

theorem enclosing?_last (store : FrameStore Value) (frame : Frame Value) :
    (store.add frame).enclosing? store.size = frame.enclosing := by
  rw [enclosing?_add, if_pos rfl]

theorem lt_size_add (store store' : FrameStore Value) (frame frame' : Frame Value) :
    store.size < (store.add frame).size ∧ store'.size < (store'.add frame').size := by
  rw [size_add, size_add]
  exact ⟨Nat.lt_succ_self _, Nat.lt_succ_self _⟩

/-- Both runs make a frame to which values may lead. -/
theorem add_shared (h : store.Moved P own store') (hslots : SlotsMatch P slots slots')
    (haround : Option.Rel P around around') :
    (store.add ⟨slots, around⟩).Moved (P.insert store.size store'.size) own
      (store'.add ⟨slots', around'⟩) := by
  refine ((h.add_left _).add_right _).insert (lt_size_add _ _ _ _) h.lacks_size ?_ ?_
  · rw [slots_last, slots_last]
    exact hslots
  · rw [enclosing?_last, enclosing?_last]
    exact haround

/-- Both runs make a frame to which no value leads. -/
theorem add_own (h : store.Moved P own store') (hslots : SlotsMatch P slots slots')
    (haround : Option.Rel (P.with own) around around') :
    (store.add ⟨slots, around⟩).Moved P ((store.size, store'.size) :: own)
      (store'.add ⟨slots', around'⟩) := by
  refine ((h.add_left _).add_right _).cons (lt_size_add _ _ _ _) h.lacks_size ?_ ?_
  · rw [slots_last, slots_last]
    exact hslots
  · rw [enclosing?_last, enclosing?_last]
    exact haround

/-- One run goes on in a copy of the innermost frame, the other in the frame itself. -/
theorem copy_left (h : store.Moved P ((a, b) :: own) store') :
    (store.snapshot a).Moved P ((store.size, b) :: own) store' := by
  obtain ⟨hlacks, haround⟩ := h.nested (List.suffix_refl _)
  have hhead : P.with ((a, b) :: own) a b := .inr (List.mem_cons_self ..)
  have houter := h.outward (List.suffix_cons _ _)
  refine (houter.add_left _).cons ⟨?_, (h.range hhead).2⟩
    (fun c d hcd => ⟨Nat.ne_of_lt (houter.range hcd).1, (hlacks hcd).2⟩) ?_ ?_
  · rw [size_add]
    exact Nat.lt_succ_self _
  · rw [slots_last]
    exact h.slots hhead
  · rw [enclosing?_last]
    exact haround

end Both

/-! ### Setting variables -/

theorem bind (h : store.Moved P own store') (hab : P.with own a b) (name : String)
    {value value' : Option Value} (hvalue : Option.Rel (Value.Moved P) value value') :
    (store.bind a name value).Moved P own (store'.bind b name value') := by
  obtain ⟨ha, hb⟩ := h.range hab
  refine ⟨fun hcd => ?_, fun {c d} hcd => ?_, fun hcd => ?_, h.single, fun hsuffix => ?_⟩
  · rw [size_bind, size_bind]
    exact h.range hcd
  · -- Both are the frame in question or neither is.
    have hsame := h.single_with hcd hab
    intro other
    rw [find?_slots_bind, find?_slots_bind]
    by_cases hbound : c = a ∧ name = other
    · rw [if_pos ⟨hbound.1, ha, hbound.2⟩, if_pos ⟨hsame.1 hbound.1, hb, hbound.2⟩]
      exact .some hvalue
    · rw [if_neg fun heq => hbound ⟨heq.1, heq.2.2⟩, if_neg fun heq =>
        hbound ⟨hsame.2 heq.1, heq.2.2⟩]
      exact h.slots hcd other
  · rw [enclosing?_bind, enclosing?_bind]
    exact h.enclosing hcd
  · rw [enclosing?_bind, enclosing?_bind]
    exact h.nested hsuffix

end FrameStore.Moved

/-! ### Access -/

/-- The same error of access, or related results. -/
inductive FrameStore.Same {α β : Type} (Q : α → β → Prop) :
    Except FrameError α → Except FrameError β → Prop
  | ok {a : α} {b : β} (h : Q a b) : FrameStore.Same Q (.ok a) (.ok b)
  | error (error : FrameError) : FrameStore.Same Q (.error error) (.error error)

namespace FrameStore

variable {P : FramePairs} {own : List (FrameId × FrameId)} {store store' : FrameStore Value}
  {a b : FrameId}

theorem Same.bind {α β γ δ : Type} {Q : α → β → Prop} {Q' : γ → δ → Prop} {x : Except FrameError α}
    {y : Except FrameError β} {f : α → Except FrameError γ} {g : β → Except FrameError δ}
    (h : Same Q x y) (hf : ∀ a b, Q a b → Same Q' (f a) (g b)) :
    Same Q' (x >>= f) (y >>= g) := by
  cases h with
  | ok hab => exact hf _ _ hab
  | error error => exact .error error

theorem Same.cases {α β : Type} {Q : α → β → Prop} {x : Except FrameError α}
    {y : Except FrameError β} (h : Same Q x y) :
    (∃ a b, x = .ok a ∧ y = .ok b ∧ Q a b) ∨ ∃ error, x = .error error ∧ y = .error error := by
  cases h with
  | ok h => exact .inl ⟨_, _, rfl, rfl, h⟩
  | error error => exact .inr ⟨error, rfl, rfl⟩

namespace Moved

theorem read (h : store.Moved P own store') (hab : P.with own a b) (name : String) :
    Same (Value.Moved P) (store.read a name) (store'.read b name) := by
  unfold FrameStore.read
  rcases rel_cases (h.slots hab name) with ⟨hleft, hright⟩ | ⟨value, value', hleft, hright, hvalue⟩
  · rw [hleft, hright]
    exact .error _
  · rw [hleft, hright]
    rcases rel_cases hvalue with ⟨rfl, rfl⟩ | ⟨v, v', rfl, rfl, hv⟩
    · exact .error _
    · exact .ok hv

/-- Going outward leads to corresponding frames. -/
theorem ancestorFrom (h : store.Moved P own store') (distance left : Nat) (hab : P.with own a b) :
    Same (P.with own) (store.ancestorFrom distance left a)
      (store'.ancestorFrom distance left b) := by
  induction left generalizing a b with
  | zero => exact .ok hab
  | succ left ih =>
      rw [FrameStore.ancestorFrom, FrameStore.ancestorFrom]
      rcases rel_cases (h.enclosing_with hab) with
        ⟨hleft, hright⟩ | ⟨outer, outer', hleft, hright, houter⟩
      · rw [hleft, hright]
        exact .error _
      · rw [hleft, hright]
        exact ih houter

theorem ancestor (h : store.Moved P own store') (distance : Nat) (hab : P.with own a b) :
    Same (P.with own) (store.ancestor a distance) (store'.ancestor b distance) :=
  h.ancestorFrom distance distance hab

theorem getAt (h : store.Moved P own store') (distance : Nat) (hab : P.with own a b)
    (name : String) :
    Same (Value.Moved P) (store.getAt a distance name) (store'.getAt b distance name) :=
  (h.ancestor distance hab).bind fun _ _ htarget => h.read htarget name

theorem locateAt (h : store.Moved P own store') (distance : Nat) (hab : P.with own a b)
    (name : String) :
    Same (P.with own) (store.locateAt a distance name) (store'.locateAt b distance name) := by
  refine (h.ancestor distance hab).bind fun target target' htarget => ?_
  rw [Table.Matches.contains (h.slots htarget)]
  split
  · exact .ok htarget
  · exact .error _

/-- A frame that lies in no other is the only one that is searched from there. -/
theorem locate (h : store.Moved P own store') (hab : P.with own a b)
    (houtermost : store.enclosing? a = none) (name : String) :
    Same (P.with own) (store.locate a name) (store'.locate b name) := by
  have houtermost' : store'.enclosing? b = none := by
    rcases rel_cases (h.enclosing_with hab) with ⟨-, hright⟩ | ⟨_, _, hleft, -⟩
    · exact hright
    · rw [houtermost] at hleft
      cases hleft
  unfold FrameStore.locate FrameStore.holder?
  rw [holderFrom, holderFrom, Table.Matches.contains (h.slots hab), houtermost, houtermost']
  by_cases hfound : (store.slots a).contains name = true
  · rw [if_pos hfound, if_pos hfound]
    exact .ok hab
  · rw [if_neg hfound, if_neg hfound]
    exact .error _

theorem get (h : store.Moved P own store') (hab : P.with own a b)
    (houtermost : store.enclosing? a = none) (name : String) :
    Same (Value.Moved P) (store.get a name) (store'.get b name) :=
  (h.locate hab houtermost name).bind fun _ _ htarget => h.read htarget name

end Moved
end FrameStore
end TraitScript
