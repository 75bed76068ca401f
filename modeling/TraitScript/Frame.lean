import TraitScript.Table

/-!
# Frames

At run time every scope is a frame: a table of variables and the frame around it. Closures share
frames, so they live in a store and are named by their place in it. A variable is found either by
walking outward to the nearest frame that binds it, or in the frame a known number of hops away.
-/

namespace TraitScript

inductive FrameError where
  | undefined (name : String)
  /-- The variable was declared without a value. -/
  | uninitialized (name : String)
  /-- The chain of frames is shorter than the distance. -/
  | chainEnded (hops distance : Nat)
  deriving DecidableEq, Repr

def FrameError.message : FrameError → String
  | undefined name => "Undefined variable '" ++ name ++ "'."
  | uninitialized name => "Access of uninitialized variable '" ++ name ++ "'."
  | chainEnded hops distance =>
    s!"scope chain ended after {hops} of {distance} hops: resolver and interpreter disagree"

/-- The place of a frame in its store. -/
abbrev FrameId := Nat

structure Frame (α : Type) where
  /-- The variables of the frame; `none` stands for a variable without a value. -/
  slots : Table (Option α)
  enclosing : Option FrameId

structure FrameStore (α : Type) where
  frames : Array (Frame α)

namespace FrameStore

variable {α : Type}

def empty : FrameStore α := ⟨#[]⟩

def size (store : FrameStore α) : Nat := store.frames.size

/-! ### Creating frames -/

/-- Adds a frame; its place is the size of the store before. -/
def add (store : FrameStore α) (frame : Frame α) : FrameStore α := ⟨store.frames.push frame⟩

def addEmpty (store : FrameStore α) (enclosing : Option FrameId) : FrameStore α :=
  store.add ⟨∅, enclosing⟩

def enclosing? (store : FrameStore α) (frame : FrameId) : Option FrameId :=
  store.frames[frame]?.bind (·.enclosing)

def slots (store : FrameStore α) (frame : FrameId) : Table (Option α) :=
  match store.frames[frame]? with
  | some f => f.slots
  | none => ∅

/-- Adds a copy of a frame, with variables of its own inside the same frame. -/
def snapshot (store : FrameStore α) (frame : FrameId) : FrameStore α :=
  store.add ⟨store.slots frame, store.enclosing? frame⟩

@[simp] theorem size_add (store : FrameStore α) (frame : Frame α) :
    (store.add frame).size = store.size + 1 :=
  Array.size_push frame

@[simp] theorem size_snapshot (store : FrameStore α) (frame : FrameId) :
    (store.snapshot frame).size = store.size + 1 :=
  size_add store _

theorem getElem?_add (store : FrameStore α) (frame : Frame α) (id : FrameId) :
    (store.add frame).frames[id]? = if id = store.size then some frame else store.frames[id]? :=
  Array.getElem?_push

/-- A new frame leaves the variables of all others alone. -/
theorem slots_add (store : FrameStore α) (frame : Frame α) (id : FrameId) :
    (store.add frame).slots id = if id = store.size then frame.slots else store.slots id := by
  by_cases h : id = store.size <;> simp [slots, getElem?_add, h]

theorem enclosing?_add (store : FrameStore α) (frame : Frame α) (id : FrameId) :
    (store.add frame).enclosing? id =
      if id = store.size then frame.enclosing else store.enclosing? id := by
  by_cases h : id = store.size <;> simp [enclosing?, getElem?_add, h]

/-! ### Variables of one frame -/

/-- Sets a variable of a frame to a value or to none. -/
def bind (store : FrameStore α) (frame : FrameId) (name : String) (value : Option α) :
    FrameStore α :=
  ⟨store.frames.modify frame fun f => { f with slots := f.slots.insert name value }⟩

@[simp] theorem size_bind (store : FrameStore α) (frame : FrameId) (name : String)
    (value : Option α) :
    (store.bind frame name value).size = store.size := by
  simp [bind, size]

/-- Setting a variable changes no frame's surroundings. -/
@[simp] theorem enclosing?_bind (store : FrameStore α) (frame id : FrameId) (name : String)
    (value : Option α) :
    (store.bind frame name value).enclosing? id = store.enclosing? id := by
  simp only [bind, enclosing?, Array.getElem?_modify]
  split
  · cases store.frames[id]? <;> rfl
  · rfl

/-- Setting a variable changes that variable of that frame and nothing else. -/
theorem find?_slots_bind (store : FrameStore α) (frame id : FrameId) (name other : String)
    (value : Option α) :
    ((store.bind frame name value).slots id).find? other =
      if id = frame ∧ frame < store.size ∧ name = other then some value
      else (store.slots id).find? other := by
  by_cases h : frame = id
  · subst h
    by_cases hs : frame < store.size
    · have hf : frame < store.frames.size := hs
      by_cases hn : name = other <;> simp [bind, slots, Array.getElem_modify, hf, hs, hn]
    · have hf : store.frames[frame]? = none := Array.getElem?_eq_none (Nat.le_of_not_lt hs)
      simp [bind, slots, Array.getElem?_modify, hf, hs]
  · have h' : ¬ id = frame := fun e => h e.symm
    simp [bind, slots, Array.getElem?_modify, h, h']

def define (store : FrameStore α) (frame : FrameId) (name : String) (value : α) : FrameStore α :=
  store.bind frame name (some value)

def declare (store : FrameStore α) (frame : FrameId) (name : String) : FrameStore α :=
  store.bind frame name none

/-- Reads a variable of this very frame. -/
def read (store : FrameStore α) (frame : FrameId) (name : String) : Except FrameError α :=
  match (store.slots frame).find? name with
  | some (some value) => .ok value
  | some none => .error (.uninitialized name)
  | none => .error (.undefined name)

/-! ### Along the chain -/

/-- The nearest of at most `bound` frames on a chain that binds a name. -/
def holderFrom (store : FrameStore α) (name : String) : (bound : Nat) → FrameId → Option FrameId
  | 0, _ => none
  | bound + 1, frame =>
    if (store.slots frame).contains name then some frame
    else match store.enclosing? frame with
      | some outer => holderFrom store name bound outer
      | none => none

/-- The nearest frame on a chain that binds a name. A frame is created after the one around it, so a
chain from place `n` has at most `n + 1` frames. -/
def holder? (store : FrameStore α) (frame : FrameId) (name : String) : Option FrameId :=
  holderFrom store name (frame + 1) frame

def locate (store : FrameStore α) (frame : FrameId) (name : String) : Except FrameError FrameId :=
  match store.holder? frame name with
  | some holder => .ok holder
  | none => .error (.undefined name)

def get (store : FrameStore α) (frame : FrameId) (name : String) : Except FrameError α := do
  store.read (← store.locate frame name) name

def assign (store : FrameStore α) (frame : FrameId) (name : String) (value : α) :
    Except FrameError (FrameStore α) := do
  return store.define (← store.locate frame name) name value

/-! ### By distance -/

/-- Goes outward by the hops that are left, of `distance` in all. -/
def ancestorFrom (store : FrameStore α) (distance : Nat) :
    (left : Nat) → FrameId → Except FrameError FrameId
  | 0, frame => .ok frame
  | left + 1, frame =>
    match store.enclosing? frame with
    | some outer => ancestorFrom store distance left outer
    | none => .error (.chainEnded (distance - (left + 1)) distance)

def ancestor (store : FrameStore α) (frame : FrameId) (distance : Nat) :
    Except FrameError FrameId :=
  ancestorFrom store distance distance frame

/-- Reads a variable of the frame at a distance, without looking further. -/
def getAt (store : FrameStore α) (frame : FrameId) (distance : Nat) (name : String) :
    Except FrameError α := do
  store.read (← store.ancestor frame distance) name

/-- The frame at a distance, which must bind a name itself. -/
def locateAt (store : FrameStore α) (frame : FrameId) (distance : Nat) (name : String) :
    Except FrameError FrameId := do
  let target ← store.ancestor frame distance
  if (store.slots target).contains name then return target else throw (.undefined name)

/-- Writes a variable of the frame at a distance, without looking further. -/
def assignAt (store : FrameStore α) (frame : FrameId) (distance : Nat) (name : String) (value : α) :
    Except FrameError (FrameStore α) := do
  return store.define (← store.locateAt frame distance name) name value

end FrameStore
end TraitScript
