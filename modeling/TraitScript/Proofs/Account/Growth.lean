import TraitScript.Proofs.Account.Declare

/-!
# Frames are only added

Whatever a script does, frames are added and variables are set, but no frame ever moves: the frame
around it stays the same. An evaluation ends in the frame it started in. Both hold of any tree in
any machine, whatever its functions are and whatever its native functions do.
-/

namespace TraitScript

/-! ### Stores -/

/-- A store with further frames; those that were there lie where they did. -/
structure FrameStore.Grows {α : Type} (store later : FrameStore α) : Prop where
  size : store.size ≤ later.size
  enclosing : ∀ frame < store.size, later.enclosing? frame = store.enclosing? frame

namespace FrameStore

variable {α : Type} {store later : FrameStore α}

theorem Grows.refl (store : FrameStore α) : store.Grows store := ⟨Nat.le_refl _, fun _ _ => rfl⟩

theorem Grows.trans {last : FrameStore α} (h : store.Grows later) (h' : later.Grows last) :
    store.Grows last :=
  ⟨Nat.le_trans h.size h'.size, fun frame hframe =>
    (h'.enclosing frame (Nat.lt_of_lt_of_le hframe h.size)).trans (h.enclosing frame hframe)⟩

theorem grows_bind (store : FrameStore α) (frame : FrameId) (name : String) (value : Option α) :
    store.Grows (store.bind frame name value) :=
  ⟨Nat.le_of_eq (store.size_bind frame name value).symm, fun id _ =>
    store.enclosing?_bind frame id name value⟩

theorem grows_add (store : FrameStore α) (frame : Frame α) : store.Grows (store.add frame) := by
  refine ⟨?_, fun id hid => ?_⟩
  · rw [size_add]
    exact Nat.le_succ _
  · rw [enclosing?_add, if_neg (Nat.ne_of_lt hid)]

/-- A frame that lies in another is in the store. -/
theorem lt_size_of_enclosing? {frame around : FrameId} (h : store.enclosing? frame = some around) :
    frame < store.size := by
  rw [enclosing?, Option.bind_eq_some_iff] at h
  obtain ⟨_, hframe, -⟩ := h
  exact (Array.getElem?_eq_some_iff.1 hframe).1

theorem Grows.enclosing_some (h : store.Grows later) {frame around : FrameId}
    (hframe : store.enclosing? frame = some around) :
    later.enclosing? frame = some around :=
  (h.enclosing frame (lt_size_of_enclosing? hframe)).trans hframe

/-- What is so many frames outward stays there. -/
theorem Grows.ancestorFrom (h : store.Grows later) {distance distance' left : Nat}
    {frame outer : FrameId} (hframe : store.ancestorFrom distance left frame = .ok outer) :
    later.ancestorFrom distance' left frame = .ok outer := by
  induction left generalizing frame with
  | zero => exact hframe
  | succ left ih =>
      rw [FrameStore.ancestorFrom] at hframe ⊢
      cases haround : store.enclosing? frame with
      | none =>
          rw [haround] at hframe
          cases hframe
      | some around =>
          rw [haround] at hframe
          rw [h.enclosing_some haround]
          exact ih hframe

theorem Grows.ancestor (h : store.Grows later) {distance : Nat} {frame outer : FrameId}
    (hframe : store.ancestor frame distance = .ok outer) :
    later.ancestor frame distance = .ok outer :=
  h.ancestorFrom hframe

/-- One hop further in, everything is one hop further out. -/
theorem ancestor_succ {frame around outer : FrameId} {distance : Nat}
    (haround : store.enclosing? frame = some around)
    (h : store.ancestor around distance = .ok outer) :
    store.ancestor frame (distance + 1) = .ok outer := by
  rw [ancestor, ancestorFrom, haround]
  exact (Grows.refl store).ancestorFrom h

end FrameStore

/-! ### The account -/

/-- An account of the frames and of nothing else. -/
def Account.growth : Account where
  Known := FrameStore Value
  le store later := store.Grows later
  fits store m := store = m.frames
  admits _ _ := True
  scope _ _ := True
  receives _ _ _ := True

namespace Account

open Eval

theorem growth.later {m m' : Machine} {P : growth.Known → Prop} (hgrows : m.frames.Grows m'.frames)
    (hP : ∀ k, P k) :
    growth.Later m.frames m' P :=
  ⟨m'.frames, hgrows, rfl, hP _⟩

/-- The same for a machine with one more frame. -/
theorem growth.later_add {m m' : Machine} {P : growth.Known → Prop} {frame : Frame Value}
    (hframes : m'.frames = m.frames.add frame) (hP : ∀ k, P k) : growth.Later m.frames m' P :=
  growth.later (by rw [hframes]; exact m.frames.grows_add frame) hP

theorem lawful_growth : growth.Lawful where
  refl := FrameStore.Grows.refl
  trans := FrameStore.Grows.trans
  admits_mono _ _ := trivial
  scope_mono _ _ := trivial
  plain _ := trivial
  native := trivial
  slots _ _ := trivial
  fields _ _ _ := trivial
  natives _ _ _ := .inr fun _ _ => trivial
  current _ := trivial
  globals _ := trivial
  enter := by
    rintro _ m frame rfl -
    exact growth.later (.refl _) fun _ => trivial
  aside := by
    rintro _ m output world distances rfl
    exact growth.later (.refl _) fun _ => trivial
  bind := by
    rintro _ m frame name value rfl -
    exact growth.later (m.frames.grows_bind frame name value) fun _ => trivial
  setField := by
    rintro _ m holder name v rfl -
    exact growth.later (.refl _) fun _ => trivial
  statement := by
    rintro _ m origin around rfl - -
    exact growth.later_add rfl fun _ => trivial
  call := by
    rintro _ m closure rfl -
    exact growth.later_add rfl fun _ => trivial
  nextRound := by
    rintro _ m rfl
    exact growth.later_add rfl fun _ => trivial
  function := by
    rintro _ m decl rfl
    exact growth.later (.refl _) fun _ => trivial
  inst := by
    rintro _ m definition rfl -
    exact growth.later (.refl _) fun _ => trivial
  finds _ _ := trivial
  receiver := by
    rintro _ m v method rfl - -
    exact growth.later_add rfl fun _ => trivial

theorem grows_addSuper (m : Machine) (declaration : Stmt) (superclass : Option Class) :
    m.frames.Grows (m.addSuper declaration superclass).frames := by
  cases superclass with
  | none => exact .refl _
  | some definition => exact m.frames.grows_add _

theorem handles_growth (stop : Stop) : growth.Handles {} stop := by
  refine handles_nothing lawful_growth (fun _ _ => trivial) ?_ ?_
  · rintro fuel _ m m' name body used members rfl - - -
    exact growth.later (m'.frames.grows_bind _ _ _) fun _ => trivial
  · rintro fuel _ m m' name parent body superclass used members rfl - - - -
    exact growth.later ((grows_addSuper m' _ superclass).trans (FrameStore.grows_bind _ _ _ _))
      fun _ => trivial

theorem related_growth (fuel : Nat) : ∃ watching, growth.Related (evaluators fuel) watching := by
  have hrelated := related_evaluators lawful_growth shows_nothing (handles_growth .outOfFuel) fuel
  rw [watchedInside_nothing] at hrelated
  exact ⟨_, hrelated⟩

end Account

/-! ### Steady computations -/

namespace Eval

open Account

variable {α β : Type} {x : Eval α} {m : Machine}

/-- However a computation ends, frames were only added, and the current frame is the one that it
was. -/
def Steady (x : Eval α) : Prop :=
  ∀ m, m.frames.Grows (Result.machine (x m)).frames ∧ (Result.machine (x m)).current = m.current

theorem steady_of_keeps {y : Eval α} {Q : Machine → α → growth.Known → Machine → Prop}
    (h : ∀ k m, growth.Keeps True k x y (Q m) m) : Steady x := by
  intro m
  obtain ⟨-, hends⟩ := h m.frames m rfl
  cases hresult : x m with
  | ok _ m' | error _ m' =>
      rw [hresult] at hends
      obtain ⟨hcurrent, _, hle, rfl, -⟩ := hends
      exact ⟨hle, hcurrent trivial⟩

theorem Steady.of_ok (hx : Steady x) {a : α} {m' : Machine} (h : x m = .ok a m') :
    m.frames.Grows m'.frames ∧ m'.current = m.current := by
  have hend := hx m
  rw [h] at hend
  exact hend

theorem Steady.of_error (hx : Steady x) {stop : Stop} {m' : Machine} (h : x m = .error stop m') :
    m.frames.Grows m'.frames ∧ m'.current = m.current := by
  have hend := hx m
  rw [h] at hend
  exact hend

theorem steady_evaluate (fuel : Nat) (expr : Expr) : Steady (evaluate fuel expr) := by
  obtain ⟨_, hrelated⟩ := related_growth fuel
  exact steady_of_keeps fun _ _ => hrelated.evaluate

theorem steady_execute (fuel : Nat) (stmt : Stmt) : Steady (execute fuel stmt) := by
  obtain ⟨_, hrelated⟩ := related_growth fuel
  exact steady_of_keeps fun _ _ => hrelated.execute

theorem steady_enterLoop (fuel : Nat) (initial : Option Stmt) :
    Steady (enterLoop (evaluators fuel) initial) := by
  obtain ⟨_, hrelated⟩ := related_growth fuel
  exact steady_of_keeps fun _ _ => keeps_enterLoop lawful_growth hrelated initial

theorem steady_holds (fuel : Nat) (condition : Option Expr) :
    Steady (holds (condition.map (evaluate fuel))) := by
  obtain ⟨_, hrelated⟩ := related_growth fuel
  exact steady_of_keeps fun _ _ => keeps_holds lawful_growth (related_part hrelated condition)

theorem steady_perhaps (fuel : Nat) (part : Option Expr) :
    Steady (perhaps (part.map (evaluate fuel))) := by
  obtain ⟨_, hrelated⟩ := related_growth fuel
  exact steady_of_keeps fun _ _ => keeps_perhaps lawful_growth (related_part hrelated part)

end Eval
end TraitScript
