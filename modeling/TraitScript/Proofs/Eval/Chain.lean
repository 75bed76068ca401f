import TraitScript.Machine.Basic
import TraitScript.Proofs.Scope.Place

/-!
# Chains of frames

Every frame but the global one was made for a part of the text, its site. A chain of frames is
linked to a list of sites when the frames, from the innermost outward, were made for these sites and
the last of them lies in the global frame. Linking a chain to the scopes around a place is what
running has to keep up: a distance that was counted over scopes then leads to the frame of the scope
it was counted to.

Frames are only ever added, and neither the site of a frame nor the frame around it changes, so
chains stay linked.
-/

namespace TraitScript

/-- A class receives its class methods, everything else methods of instances. -/
def Value.receiverKind : Value → MethodKind
  | .classValue _ => .ofClass
  | _ => .ofInstance

/-- The part of the text that a frame was made for; top-level code is no part with names of its
own. -/
def Origin.site? : Origin → Option Site
  | .globals => none
  | .block statements => some (.block statements)
  | .loop statement => some (.loop statement)
  | .call decl => some (.function decl)
  | .receiver decl value => some (.receiver value.receiverKind decl)
  | .superclass declaration _ => some (.superclass declaration)

namespace Machine

def site? (m : Machine) (frame : FrameId) : Option Site := m.origins[frame]?.bind Origin.site?

/-- The frames from one outward were made for a list of sites, and lie in the global frame. -/
def Linked (m : Machine) : FrameId → List Site → Prop
  | frame, [] => frame = m.globals
  | frame, site :: outer =>
    m.site? frame = some site ∧ ∃ around, m.frames.enclosing? frame = some around ∧
      m.Linked around outer

/-- A machine with further frames and native functions; those frames that were there have kept their
place in the text. -/
structure Extends (m m' : Machine) : Prop where
  globals : m'.globals = m.globals
  origins : ∀ {frame : FrameId} {origin : Origin}, m.origins[frame]? = some origin →
      m'.origins[frame]? = some origin
  enclosing : ∀ {frame around : FrameId}, m.frames.enclosing? frame = some around →
      m'.frames.enclosing? frame = some around
  natives : ∀ {id : Nat} {native : Native}, m.natives[id]? = some native →
      m'.natives[id]? = some native

theorem Extends.refl (m : Machine) : m.Extends m := ⟨rfl, id, id, id⟩

theorem Extends.trans {m m' m'' : Machine} (h : m.Extends m') (h' : m'.Extends m'') :
    m.Extends m'' :=
  ⟨h'.globals.trans h.globals, fun ho => h'.origins (h.origins ho), fun he =>
    h'.enclosing (h.enclosing he),
    fun hn => h'.natives (h.natives hn)⟩

theorem Extends.site? {m m' : Machine} (h : m.Extends m') {frame : FrameId} {site : Site}
    (hsite : m.site? frame = some site) :
    m'.site? frame = some site := by
  obtain ⟨origin, horigin, hsite⟩ := Option.bind_eq_some_iff.1 hsite
  rw [Machine.site?, h.origins horigin]
  exact hsite

theorem Linked.mono {m m' : Machine} (h : m.Extends m') {frame : FrameId} {sites : List Site}
    (hlinked : m.Linked frame sites) :
    m'.Linked frame sites := by
  induction sites generalizing frame with
  | nil =>
      rw [Linked, h.globals]
      exact hlinked
  | cons site outer ih =>
      obtain ⟨hsite, around, henclosing, hrest⟩ := hlinked
      exact ⟨h.site? hsite, around, h.enclosing henclosing, ih hrest⟩

/-- Going out by fewer hops than there are sites leads to the frame of the site that many places
outward. -/
theorem Linked.ancestorFrom {m : Machine} (distance : Nat) {left : Nat} {frame : FrameId}
    {sites : List Site} (h : m.Linked frame sites) (hleft : left < sites.length) :
    ∃ holder, m.frames.ancestorFrom distance left frame = .ok holder ∧
      m.Linked holder (sites.drop left) := by
  induction left generalizing frame sites with
  | zero => exact ⟨frame, rfl, h⟩
  | succ left ih =>
      cases sites with
      | nil => simp at hleft
      | cons site outer =>
          obtain ⟨-, around, henclosing, hrest⟩ := h
          obtain ⟨holder, hholder, hlinked⟩ := ih hrest (by simpa using hleft)
          refine ⟨holder, ?_, hlinked⟩
          rw [FrameStore.ancestorFrom, henclosing]
          exact hholder

theorem Linked.ancestor {m : Machine} {distance : Nat} {frame : FrameId} {sites : List Site}
    {site : Site} (h : m.Linked frame sites) (hsite : sites[distance]? = some site) :
    ∃ holder, m.frames.ancestor frame distance = .ok holder ∧ m.site? holder = some site := by
  have hlength : distance < sites.length := (List.getElem?_eq_some_iff.1 hsite).1
  obtain ⟨holder, hholder, hlinked⟩ := h.ancestorFrom distance hlength
  refine ⟨holder, hholder, ?_⟩
  rw [List.drop_eq_getElem_cons hlength] at hlinked
  rw [hlinked.1, ← hsite, List.getElem?_eq_getElem hlength]

/-! ### What leaves the frames alone -/

theorem extends_current (m : Machine) (frame : FrameId) : m.Extends { m with current := frame } :=
  ⟨rfl, id, id, id⟩

theorem extends_push (m : Machine) (native : Native) :
    m.Extends { m with natives := m.natives.push native } := by
  refine ⟨rfl, id, id, fun {id other} hother => ?_⟩
  rw [Array.getElem?_push, if_neg (Nat.ne_of_lt (Array.getElem?_eq_some_iff.1 hother).1)]
  exact hother

end Machine

/-! ### Adding a frame -/

namespace FrameStore

variable {α : Type}

/-- Setting a variable of a new frame is adding the frame with it. -/
theorem bind_addEmpty (store : FrameStore α) (enclosing : Option FrameId) (name : String)
    (value : Option α) :
    (store.addEmpty enclosing).bind store.size name value =
      store.add ⟨(∅ : Table (Option α)).insert name value, enclosing⟩ := by
  have hframes : (store.frames.push ⟨∅, enclosing⟩).modify store.frames.size
      (fun f => { f with slots := f.slots.insert name value }) =
        store.frames.push ⟨(∅ : Table (Option α)).insert name value, enclosing⟩ := by
    apply Array.ext_getElem?
    intro id
    rw [Array.getElem?_modify, Array.getElem?_push, Array.getElem?_push]
    by_cases hid : store.frames.size = id
    · simp [hid]
    · have hid' : ¬ id = store.frames.size := fun h => hid h.symm
      simp [hid, hid']
  exact congrArg FrameStore.mk hframes

end FrameStore

namespace Machine

/-- Adds a frame that was made for something. -/
def addFrame (m : Machine) (origin : Origin) (frame : Frame Value) : Machine :=
  { m with frames := m.frames.add frame, origins := m.origins.push origin }

theorem extends_addFrame (m : Machine) (origin : Origin) (frame : Frame Value) :
    m.Extends (m.addFrame origin frame) := by
  refine ⟨rfl, fun {old _} horigin => ?_, fun {old _} henclosing => ?_, id⟩
  · have hold : old ≠ m.origins.size := fun h => by simp [h] at horigin
    rw [addFrame, Array.getElem?_push, if_neg hold]
    exact horigin
  · have hold : old ≠ m.frames.size := by
      intro h
      have hnone : m.frames.frames[m.frames.size]? = none := Array.getElem?_eq_none (Nat.le_refl _)
      rw [h, FrameStore.enclosing?, hnone] at henclosing
      cases henclosing
    rw [addFrame, FrameStore.enclosing?_add, if_neg hold]
    exact henclosing

theorem origin_addFrame (m : Machine) (hsize : m.origins.size = m.frames.size) (origin : Origin)
    (frame : Frame Value) :
    (m.addFrame origin frame).origins[m.frames.size]? = some origin := by
  rw [addFrame, ← hsize, Array.getElem?_push_size]

/-- A new frame extends the chain of the frame around it. -/
theorem Linked.addFrame {m : Machine} (hsize : m.origins.size = m.frames.size) {around : FrameId}
    {sites : List Site} (h : m.Linked around sites) {origin : Origin} {site : Site}
    (hsite : origin.site? = some site) (slots : Table (Option Value)) :
    (m.addFrame origin ⟨slots, some around⟩).Linked m.frames.size (site :: sites) := by
  refine ⟨?_, around, ?_, h.mono (extends_addFrame m _ _)⟩
  · rw [site?, origin_addFrame m hsize]
    exact hsite
  · rw [Machine.addFrame, FrameStore.enclosing?_add, if_pos rfl]

end Machine
end TraitScript
