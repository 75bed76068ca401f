import TraitScript.Proofs.Paired.Session
import TraitScript.Proofs.Tree.Renumber

/-!
# Machines with other ids

The ids in the code that values carry can be changed by a function. If two programs differ only in
ids, then of two machines that correspond one is the image of the other.
-/

namespace TraitScript

/-! ### Images -/

namespace Table

variable {α β : Type}

def map (f : α → β) (table : Table α) : Table β :=
  ⟨table.entries.map fun entry => (entry.1, f entry.2)⟩

theorem Alike.eq_map {R : α → β → Prop} {f : α → β} (hR : ∀ {a b}, R a b → b = f a)
    {table : Table α} {table' : Table β} (h : Alike (fun name => name) R table table') :
    table' = table.map f := by
  obtain ⟨entries⟩ := table
  obtain ⟨entries'⟩ := table'
  unfold Alike at h
  unfold map
  simp only at h
  congr 1
  induction h with
  | nil => rfl
  | cons hentry _ ih => rw [List.map_cons, ← ih, ← hR hentry.2, ← hentry.1]

end Table

def Closure.mapIds (f : Nat → Nat) (closure : Closure) : Closure :=
  { closure with decl := closure.decl.mapIds f }

def Metaclass.mapIds (f : Nat → Nat) : Metaclass → Metaclass
  | ⟨name, superclass, methods⟩ =>
    let parent := match superclass with
      | some parent => some (parent.mapIds f)
      | none => none
    ⟨name, parent, methods.map (·.mapIds f)⟩
termination_by structural c => c

def Class.mapIds (f : Nat → Nat) : Class → Class
  | ⟨id, name, metaclass, superclass, methods⟩ =>
    let parent := match superclass with
      | some parent => some (parent.mapIds f)
      | none => none
    ⟨id, name, metaclass.mapIds f, parent, methods.map (·.mapIds f)⟩
termination_by structural c => c

theorem Class.metaclass_mapIds (f : Nat → Nat) (c : Class) :
    (c.mapIds f).metaclass = c.metaclass.mapIds f := by
  obtain ⟨_, _, _, superclass, _⟩ := c
  cases superclass <;> rfl

def Value.mapIds (f : Nat → Nat) : Value → Value
  | .function closure => .function (closure.mapIds f)
  | .classValue definition => .classValue (definition.mapIds f)
  | .object inst => .object { inst with definingClass := inst.definingClass.mapIds f }
  | .traitValue definition =>
    .traitValue { definition with methods := definition.methods.map (·.mapIds f),
                                  classMethods := definition.classMethods.map (·.mapIds f) }
  | value => value

def Frame.mapIds (f : Nat → Nat) (frame : Frame Value) : Frame Value :=
  ⟨frame.slots.map (Option.map (Value.mapIds f)), frame.enclosing⟩

/-- The one machine is the other with other ids in its code, and has recorded for the changed ids
what the other has for the old ones. What the frames were made for and where classes and traits come
from, which no run reads, is left aside. -/
structure Machine.Image (f : Nat → Nat) (m m' : Machine) : Prop where
  frames : m'.frames.frames = m.frames.frames.map (·.mapIds f)
  fields : m'.fields = m.fields.map (·.map (Value.mapIds f))
  globals : m'.globals = m.globals
  current : m'.current = m.current
  nextId : m'.nextId = m.nextId
  distances : ∀ id : Nat, m'.distances[f id]? = m.distances[id]?
  natives : m'.natives = m.natives
  output : m'.output = m.output
  world : m'.world = m.world

/-! ### From correspondences to images -/

theorem FrameStore.getElem_eq (store : FrameStore Value) {id : FrameId}
    (h : id < store.frames.size) :
    store.frames[id] = ⟨store.slots id, store.enclosing? id⟩ := by
  simp only [FrameStore.slots, FrameStore.enclosing?, Array.getElem?_eq_getElem h, Option.bind_some]

section Renumbers

variable {P : Pairing} {L : Layout} {f : Nat → Nat} (hP : P.trees.Renumbers f)
include hP

theorem Closure.Alike.eq_mapIds {between : List Bool} {closure closure' : Closure}
    (h : closure.Alike P L between closure') :
    closure' = closure.mapIds f := by
  obtain ⟨marks, -, hcode⟩ := h.code
  rw [Closure.mapIds, ← hcode.eq_mapIds hP, ← h.id, ← h.frame, ← h.isInitializer]

theorem MethodTable.Alike.eq_mapIds {methods methods' : MethodTable}
    (h : methods.Alike P L methods') : methods' = methods.map (·.mapIds f) :=
  Table.Alike.eq_map (fun hmethod => hmethod.eq_mapIds hP) h

theorem Class.Alike.eq_mapIds {definition definition' : Class}
    (h : definition.Alike P L definition') : definition' = definition.mapIds f := by
  induction h with
  | root hmethods hclassMethods =>
      rw [Class.mapIds, Metaclass.mapIds, hmethods.eq_mapIds hP, hclassMethods.eq_mapIds hP]
  | derived _ hmethods hclassMethods ih =>
      rw [Class.mapIds, Metaclass.mapIds, hmethods.eq_mapIds hP, hclassMethods.eq_mapIds hP, ih,
        Class.metaclass_mapIds]

theorem Value.Alike.eq_mapIds {v v' : Value} (h : v.Alike P L v') : v' = v.mapIds f := by
  cases h with
  | function h => rw [Value.mapIds, h.eq_mapIds hP]
  | classValue h => rw [Value.mapIds, h.eq_mapIds hP]
  | object id h => rw [Value.mapIds, h.eq_mapIds hP]
  | traitValue id name hmethods hclassMethods =>
    rw [Value.mapIds, hmethods.eq_mapIds hP, hclassMethods.eq_mapIds hP]
  | _ => rfl

theorem eq_map_of_rel {v v' : Option Value} (h : Option.Rel (Value.Alike P L) v v') :
    v' = v.map (Value.mapIds f) := by
  cases h with
  | none => rfl
  | some h => rw [Option.map_some, h.eq_mapIds hP]

theorem FrameStore.Alike.eq_mapIds (hrename : ∀ mark, P.rename mark = fun name => name)
    {store store' : FrameStore Value} (h : store.Alike P L store') :
    store'.frames = store.frames.map (·.mapIds f) := by
  obtain ⟨hsize, hsize'⟩ := h.size
  unfold FrameStore.size at hsize hsize'
  apply Array.ext
  · rw [Array.size_map, hsize, hsize']
  · intro id hid' hid
    rw [Array.size_map] at hid
    obtain ⟨⟨mark, around⟩, hentry⟩ : ∃ entry, L[id]? = some entry :=
      ⟨_, List.getElem?_eq_getElem (hsize ▸ hid)⟩
    have hslots := h.slots hentry
    rw [hrename] at hslots
    obtain ⟨hleft, hright⟩ := h.enclosing hentry
    rw [Array.getElem_map, store.getElem_eq hid, store'.getElem_eq hid', Frame.mapIds, hleft,
      hright, hslots.eq_map fun hvalue => eq_map_of_rel hP hvalue]

theorem Machines.image (hrename : ∀ mark, P.rename mark = fun name => name)
    (hearlier : P.earlier = "") (htables : ∀ id, P.right (f id) = P.left id) {m m' : Machine}
    (h : Machines P L m m') : m.Image f m' where
  frames := h.frames.eq_mapIds hP hrename
  fields := by
    apply Array.ext_getElem?
    intro holder
    rw [Array.getElem?_map]
    rcases rel_cases (h.fields.2 holder) with
      ⟨hleft, hright⟩ | ⟨table, table', hleft, hright, htable⟩
    · rw [hleft, hright, Option.map_none]
    · rw [hleft, hright, Option.map_some, htable.eq_map fun hvalue => hvalue.eq_mapIds hP]
  globals := h.globals.2
  current := h.current
  nextId := h.nextId
  distances id := by rw [h.distances.1, h.distances.2, htables]
  natives := h.natives.1
  output := by rw [h.output, hearlier, String.empty_append]
  world := h.world

end Renumbers

end TraitScript
