import TraitScript.Proofs.Account.Growth

/-!
# Variables along a chain and at a distance

A variable is looked up in two ways: outward along the chain of frames to the nearest one that binds
it, or in the frame a counted number of hops away. If the count is the one to the nearest frame that
binds the variable, both ways read the same and write the same, and a write changes one variable of
one frame.

Stores are those that operations lead to from an empty one. In these every frame lies in an earlier
one, so a walk outward ends, and no frame lies in itself. A copy of a frame lies in the same frame
as the frame it was taken from, so that frame is never on a chain through the copy, and no write
that starts inside the copy reaches it.
-/

namespace TraitScript.FrameStore

variable {α : Type} {store later : FrameStore α}

/-! ### Operations -/

/-- What can be done to a store. -/
inductive Operation (α : Type) where
  | new
  | child (outer : FrameId)
  | snapshot (frame : FrameId)
  | define (frame : FrameId) (name : String) (value : α)
  | declare (frame : FrameId) (name : String)
  | assign (frame : FrameId) (name : String) (value : α)
  | assignAt (frame : FrameId) (distance : Nat) (name : String) (value : α)

namespace Operation

/-- The frame from which an operation starts. -/
def frame? : Operation α → Option FrameId
  | new => none
  | child frame | snapshot frame | define frame _ _ | declare frame _ | assign frame _ _
  | assignAt frame _ _ _ => some frame

/-- Whether an operation sets a variable. -/
def isWrite : Operation α → Bool
  | new | child _ | snapshot _ => false
  | define .. | declare .. | assign .. | assignAt .. => true

def run (store : FrameStore α) : Operation α → Except FrameError (FrameStore α)
  | new => .ok (store.addEmpty none)
  | child outer => .ok (store.addEmpty (some outer))
  | snapshot frame => .ok (store.snapshot frame)
  | define frame name value => .ok (store.define frame name value)
  | declare frame name => .ok (store.declare frame name)
  | assign frame name value => store.assign frame name value
  | assignAt frame distance name value => store.assignAt frame distance name value

/-- An operation names only frames that are there. -/
def Fits (operation : Operation α) (store : FrameStore α) : Prop :=
  ∀ frame, operation.frame? = some frame → frame < store.size

end Operation

/-- The store after an operation; one that fails leaves it as it was. -/
def perform (store : FrameStore α) (operation : Operation α) : FrameStore α :=
  match operation.run store with
  | .ok later => later
  | .error _ => store

/-- Operations lead from one store to another. -/
inductive Leads (store : FrameStore α) : FrameStore α → Prop
  | refl : Leads store store
  | step {later : FrameStore α} (h : Leads store later) (operation : Operation α)
      (hfits : operation.Fits later) :
      Leads store (later.perform operation)

/-! ### Outward -/

/-- A frame lies so many hops outward. -/
inductive Outward (store : FrameStore α) : FrameId → Nat → FrameId → Prop
  | here {frame : FrameId} : Outward store frame 0 frame
  | further {frame around target : FrameId} {hops : Nat}
      (haround : store.enclosing? frame = some around)
      (h : Outward store around hops target) : Outward store frame (hops + 1) target

def Binds (store : FrameStore α) (frame : FrameId) (name : String) : Prop :=
  (store.slots frame).contains name = true

instance (store : FrameStore α) (frame : FrameId) (name : String) :
    Decidable (store.Binds frame name) := inferInstanceAs (Decidable (_ = true))

/-- The frame at a distance binds a name, and none before it does. -/
structure Nearest (store : FrameStore α) (frame : FrameId) (name : String) (distance : Nat)
    (holder : FrameId) : Prop where
  outward : store.Outward frame distance holder
  binds : store.Binds holder name
  least : ∀ hops < distance, ∀ other, store.Outward frame hops other → ¬ store.Binds other name

/-- Another store in which one variable of one frame has a value, while all else is the same. -/
structure SetsOnly (store later : FrameStore α) (holder : FrameId) (name : String) (value : α) :
    Prop where
  size : later.size = store.size
  enclosing : ∀ frame, later.enclosing? frame = store.enclosing? frame
  slots : ∀ frame other, (later.slots frame).find? other =
    if frame = holder ∧ other = name then some (some value) else (store.slots frame).find? other

variable {frame around target inner outer holder : FrameId} {name : String}
  {hops hops' distance : Nat}

theorem Outward.unique (h : store.Outward frame hops target) (h' : store.Outward frame hops outer) :
    outer = target := by
  induction h with
  | here => cases h' with
    | here => rfl
  | further haround _ ih => cases h' with
    | further haround' hrest' =>
        rw [haround, Option.some_inj] at haround'
        subst haround'
        exact ih hrest'

theorem Outward.eq_or_further (h : store.Outward frame hops target) :
    target = frame ∨ ∃ around fewer, store.enclosing? frame = some around ∧
      store.Outward around fewer target := by
  cases h with
  | here => exact .inl rfl
  | further haround hrest => exact .inr ⟨_, _, haround, hrest⟩

/-- Of two frames outward the one with more hops lies outward of the other. -/
theorem Outward.rest (h : store.Outward frame hops target) (h' : store.Outward frame hops' outer)
    (hle : hops ≤ hops') :
    store.Outward target (hops' - hops) outer := by
  induction h generalizing hops' with
  | here => exact h'
  | further haround _ ih => cases h' with
    | here => exact absurd hle (Nat.not_succ_le_zero _)
    | further haround' hrest' =>
        rw [haround, Option.some_inj] at haround'
        subst haround'
        rw [Nat.succ_sub_succ]
        exact ih hrest' (Nat.le_of_succ_le_succ hle)

theorem ancestorFrom_of_outward (h : store.Outward frame hops target) (distance : Nat) :
    store.ancestorFrom distance hops frame = .ok target := by
  induction h with
  | here => rfl
  | further haround _ ih =>
      rw [ancestorFrom, haround]
      exact ih

theorem outward_of_ancestorFrom (h : store.ancestorFrom distance hops frame = .ok target) :
    store.Outward frame hops target := by
  induction hops generalizing frame with
  | zero =>
      cases h
      exact .here
  | succ hops ih =>
      rw [ancestorFrom] at h
      cases haround : store.enclosing? frame with
      | none =>
          rw [haround] at h
          cases h
      | some around =>
          rw [haround] at h
          exact .further haround (ih h)

theorem ancestor_eq_ok_iff :
    store.ancestor frame distance = .ok target ↔ store.Outward frame distance target :=
  ⟨outward_of_ancestorFrom, fun h => ancestorFrom_of_outward h distance⟩

/-! ### Every frame lies in an earlier one -/

def Founded (store : FrameStore α) : Prop :=
  ∀ frame around, store.enclosing? frame = some around → around < frame

theorem Founded.le_of_outward (hfounded : store.Founded) (h : store.Outward frame hops target) :
    target ≤ frame := by
  induction h with
  | here => exact Nat.le_refl _
  | further haround _ ih => exact Nat.le_trans ih (Nat.le_of_lt (hfounded _ _ haround))

theorem Nearest.further (haround : store.enclosing? frame = some around)
    (habsent : ¬ store.Binds frame name) (h : store.Nearest frame name distance holder) :
    ∃ fewer, store.Nearest around name fewer holder := by
  obtain ⟨hout, hbinds, hleast⟩ := h
  cases hout with
  | here => exact absurd hbinds habsent
  | further haround' hrest =>
      rw [haround, Option.some_inj] at haround'
      subst haround'
      exact ⟨_, hrest, hbinds, fun hops hlt other hother =>
        hleast (hops + 1) (Nat.succ_lt_succ hlt) other (.further haround hother)⟩

/-- The walk outward finds the nearest frame, as a frame has fewer frames around it than there are
before it. -/
theorem Nearest.holderFrom_eq (hfounded : store.Founded)
    (h : store.Nearest frame name distance holder) {bound : Nat} (hbound : frame < bound) :
    store.holderFrom name bound frame = some holder := by
  induction bound generalizing frame distance with
  | zero => exact absurd hbound (Nat.not_lt_zero _)
  | succ bound ih =>
      rw [holderFrom]
      by_cases hhere : (store.slots frame).contains name = true
      · rw [if_pos hhere]
        cases distance with
        | zero => rw [Outward.unique .here h.outward]
        | succ distance => exact absurd hhere (h.least 0 (Nat.succ_pos _) frame .here)
      · rw [if_neg hhere]
        cases haround : store.enclosing? frame with
        | none =>
            cases h.outward with
            | here => exact absurd h.binds hhere
            | further haround' _ =>
                rw [haround] at haround'
                cases haround'
        | some around =>
            obtain ⟨fewer, hnearest⟩ := h.further haround hhere
            exact ih hnearest (Nat.lt_of_lt_of_le (hfounded _ _ haround) (Nat.le_of_lt_succ hbound))

theorem holderFrom_eq_none
    (h : ∀ hops other, store.Outward frame hops other → ¬ store.Binds other name) (bound : Nat) :
    store.holderFrom name bound frame = none := by
  induction bound generalizing frame with
  | zero => rfl
  | succ bound ih =>
      have habsent : ¬ (store.slots frame).contains name = true := h 0 frame .here
      rw [holderFrom, if_neg habsent]
      cases haround : store.enclosing? frame with
      | none => rfl
      | some around =>
        exact ih fun hops other hother => h (hops + 1) other (.further haround hother)

theorem outward_of_holderFrom {bound : Nat} (h : store.holderFrom name bound frame = some holder) :
    ∃ hops, store.Outward frame hops holder := by
  induction bound generalizing frame with
  | zero => cases h
  | succ bound ih =>
      rw [holderFrom] at h
      split at h
      · cases h
        exact ⟨0, .here⟩
      · cases haround : store.enclosing? frame with
        | none =>
            rw [haround] at h
            cases h
        | some around =>
            rw [haround] at h
            obtain ⟨hops, hout⟩ := ih h
            exact ⟨hops + 1, .further haround hout⟩

theorem outward_of_locateAt (h : store.locateAt frame distance name = .ok holder) :
    store.Outward frame distance holder := by
  rw [locateAt] at h
  cases htarget : store.ancestor frame distance with
  | error e =>
      rw [htarget] at h
      cases h
  | ok target =>
      rw [htarget] at h
      change (if (store.slots target).contains name then Except.ok target else Except.error _) = _
        at h
      split at h
      · cases h
        exact ancestor_eq_ok_iff.1 htarget
      · cases h

/-! ### What an operation does -/

/-- A write either fails or sets a variable of a frame outward of the one it starts from. -/
theorem perform_write {write : Operation α} (hwrite : write.isWrite = true) :
    store.perform write = store ∨
      ∃ frame hops holder name value, write.frame? = some frame ∧ store.Outward frame hops holder ∧
      store.perform write = store.bind holder name value := by
  cases write with
  | new | child _ | snapshot _ => cases hwrite
  | define frame name value => exact .inr ⟨frame, 0, frame, name, some value, rfl, .here, rfl⟩
  | declare frame name => exact .inr ⟨frame, 0, frame, name, none, rfl, .here, rfl⟩
  | assign frame name value =>
      cases hholder : store.holder? frame name with
      | none =>
          left
          simp only [perform, Operation.run, assign, locate, hholder]
          rfl
      | some holder =>
          obtain ⟨hops, hout⟩ := outward_of_holderFrom hholder
          refine .inr ⟨frame, hops, holder, name, some value, rfl, hout, ?_⟩
          simp only [perform, Operation.run, assign, locate, hholder]
          rfl
  | assignAt frame distance name value =>
      cases htarget : store.locateAt frame distance name with
      | error e =>
          left
          simp only [perform, Operation.run, assignAt, htarget]
          rfl
      | ok target =>
          refine .inr ⟨frame, distance, target, name, some value, rfl,
            outward_of_locateAt htarget, ?_⟩
          simp only [perform, Operation.run, assignAt, htarget]
          rfl

/-- An operation does nothing, or adds a frame, or sets a variable. -/
theorem perform_cases (hfounded : store.Founded) {operation : Operation α}
    (hfits : operation.Fits store) :
    store.perform operation = store ∨
      (∃ slots enclosing, (∀ around, enclosing = some around → around < store.size) ∧
          store.perform operation = store.add ⟨slots, enclosing⟩) ∨
      ∃ holder name value, store.perform operation = store.bind holder name value := by
  by_cases hwrite : operation.isWrite = true
  · rcases perform_write hwrite with hsame | ⟨_, _, holder, name, value, -, -, hbind⟩
    · exact .inl hsame
    · exact .inr (.inr ⟨holder, name, value, hbind⟩)
  · right
    left
    cases operation with
    | new => exact ⟨∅, none, nofun, rfl⟩
    | child outer =>
        refine ⟨∅, some outer, fun around haround => ?_, rfl⟩
        cases haround
        exact hfits _ rfl
    | snapshot frame =>
        refine ⟨store.slots frame, store.enclosing? frame, fun around haround => ?_, rfl⟩
        exact Nat.lt_trans (hfounded _ _ haround) (hfits _ rfl)
    | define _ _ _ | declare _ _ | assign _ _ _ | assignAt _ _ _ _ => exact absurd rfl hwrite

theorem founded_empty : (empty : FrameStore α).Founded := by
  intro frame around haround
  exact absurd (lt_size_of_enclosing? haround) (Nat.not_lt_zero _)

theorem Founded.add (h : store.Founded) {slots : Table (Option α)} {enclosing : Option FrameId}
    (henclosing : ∀ around, enclosing = some around → around < store.size) :
    (store.add ⟨slots, enclosing⟩).Founded := by
  intro frame around haround
  rw [enclosing?_add] at haround
  split at haround
  next hlast =>
    rw [hlast]
    exact henclosing around haround
  next => exact h frame around haround

theorem Founded.perform (h : store.Founded) {operation : Operation α}
    (hfits : operation.Fits store) :
    (store.perform operation).Founded ∧ store.Grows (store.perform operation) := by
  rcases perform_cases h hfits with
    heq | ⟨slots, enclosing, henclosing, heq⟩ | ⟨holder, name, value, heq⟩
  · rw [heq]
    exact ⟨h, .refl store⟩
  · rw [heq]
    exact ⟨h.add henclosing, grows_add store _⟩
  · rw [heq]
    refine ⟨fun frame around haround => ?_, grows_bind store holder name value⟩
    rw [enclosing?_bind] at haround
    exact h frame around haround

theorem Leads.founded (h : store.Leads later) (hfounded : store.Founded) :
    later.Founded ∧ store.Grows later := by
  induction h with
  | refl => exact ⟨hfounded, .refl store⟩
  | step _ operation hfits ih =>
      obtain ⟨hnext, hgrows⟩ := ih.1.perform hfits
      exact ⟨hnext, ih.2.trans hgrows⟩

/-! ### The two ways of looking up -/

theorem setsOnly_define (hholder : holder < store.size) (name : String) (value : α) :
    store.SetsOnly (store.define holder name value) holder name value where
  size := size_bind store holder name _
  enclosing frame := enclosing?_bind store holder frame name _
  slots frame other := by
    rw [define, find?_slots_bind]
    by_cases hhere : frame = holder ∧ other = name
    · rw [if_pos hhere, if_pos ⟨hhere.1, hholder, hhere.2.symm⟩]
    · rw [if_neg hhere, if_neg fun h => hhere ⟨h.1, h.2.2.symm⟩]

theorem Nearest.locate_eq (hfounded : store.Founded)
    (h : store.Nearest frame name distance holder) : store.locate frame name = .ok holder := by
  have hholder : store.holder? frame name = some holder :=
    h.holderFrom_eq hfounded (Nat.lt_succ_self frame)
  simp only [locate, hholder]

theorem Nearest.locateAt_eq (h : store.Nearest frame name distance holder) :
    store.locateAt frame distance name = .ok holder := by
  rw [locateAt, ancestor_eq_ok_iff.2 h.outward]
  exact if_pos h.binds

theorem Nearest.get_eq (hfounded : store.Founded) (h : store.Nearest frame name distance holder) :
    store.get frame name = store.read holder name := by
  rw [get, h.locate_eq hfounded]
  rfl

theorem Nearest.getAt_eq (h : store.Nearest frame name distance holder) :
    store.getAt frame distance name = store.read holder name := by
  rw [getAt, ancestor_eq_ok_iff.2 h.outward]
  rfl

/-! ### Copies -/

/-- A frame is on no chain through a copy of it. -/
theorem ne_of_outward_copy (hfounded : store.Founded) {copy : FrameId} (hlt : frame < copy)
    (hcopy : store.enclosing? copy = store.enclosing? frame) (h : store.Outward inner hops copy)
    (h' : store.Outward inner hops' holder) : holder ≠ frame := by
  rintro rfl
  rcases Nat.le_total hops hops' with hle | hle
  · rcases (h.rest h' hle).eq_or_further with heq | ⟨around, fewer, haround, hinside⟩
    · exact Nat.ne_of_lt hlt heq
    · -- what is around the copy is around the frame too, and lies before it
      exact Nat.lt_irrefl _
        (Nat.lt_of_le_of_lt (hfounded.le_of_outward hinside) (hfounded _ _ (hcopy ▸ haround)))
  · exact Nat.lt_irrefl _ (Nat.lt_of_lt_of_le hlt (hfounded.le_of_outward (h'.rest h hle)))

/-- Looking up along the chain and at the distance of the nearest frame that binds a name agree.
Both read the same, and both write the same: the one variable of the one frame. A name that no frame
on the chain binds can neither be read nor assigned, and the store stays as it is. Whatever happens
after a copy of a frame was made, writes through the copy, or through frames inside it, leave the
variables of the frame alone. -/
theorem distance_lookups_agree {store : FrameStore α} (hbuilt : Leads empty store) {frame : FrameId}
    (hframe : frame < store.size) (name : String) (value : α) :
    (∀ distance holder, store.Nearest frame name distance holder →
      store.getAt frame distance name = store.get frame name ∧
        (∀ v, (store.slots holder).find? name = some (some v) → store.get frame name = .ok v) ∧
        ((store.slots holder).find? name = some none →
          store.get frame name = .error (.uninitialized name)) ∧
        ∃ later, store.assign frame name value = .ok later ∧
          store.assignAt frame distance name value = .ok later ∧
          store.SetsOnly later holder name value) ∧
      ((∀ hops other, store.Outward frame hops other → ¬ store.Binds other name) →
        store.get frame name = .error (.undefined name) ∧
        store.assign frame name value = .error (.undefined name) ∧
          store.perform (.assign frame name value) = store) ∧
      ∀ later, (store.snapshot frame).Leads later →
        ∀ inner hops, later.Outward inner hops store.size →
        ∀ write : Operation α, write.isWrite = true → write.frame? = some inner →
          ∀ other, ((later.perform write).slots frame).find? other =
            (later.slots frame).find? other := by
  have hfounded : store.Founded := (hbuilt.founded founded_empty).1
  refine ⟨fun distance holder hnearest => ?_, fun habsent => ?_,
    fun later hlater inner hops hinner write hwrite hstart other => ?_⟩
  · have hread := hnearest.get_eq hfounded
    have hholder : holder < store.size :=
      Nat.lt_of_le_of_lt (hfounded.le_of_outward hnearest.outward) hframe
    refine ⟨hnearest.getAt_eq.trans hread.symm, fun v hv => ?_, fun hnone => ?_,
      store.define holder name value, ?_, ?_, setsOnly_define hholder name value⟩
    · rw [hread, read, hv]
    · rw [hread, read, hnone]
    · rw [assign, hnearest.locate_eq hfounded]
      rfl
    · rw [assignAt, hnearest.locateAt_eq]
      rfl
  · have hlocate : store.locate frame name = .error (.undefined name) := by
      have hholder : store.holder? frame name = none := holderFrom_eq_none habsent _
      simp only [locate, hholder]
    have hassign : store.assign frame name value = .error (.undefined name) := by
      rw [assign, hlocate]
      rfl
    refine ⟨?_, hassign, ?_⟩
    · rw [get, hlocate]
      rfl
    · simp only [perform, Operation.run, hassign]
  · have hcopied : (store.snapshot frame).Founded :=
      hfounded.add fun around haround => Nat.lt_trans (hfounded _ _ haround) hframe
    obtain ⟨hfounded', hgrows⟩ := hlater.founded hcopied
    have hcopy : later.enclosing? store.size = later.enclosing? frame := by
      have hsize := store.size_snapshot frame
      rw [hgrows.enclosing store.size (hsize ▸ Nat.lt_succ_self _),
        hgrows.enclosing frame (hsize ▸ Nat.lt_succ_of_lt hframe), snapshot,
        enclosing?_add, enclosing?_add, if_pos rfl, if_neg (Nat.ne_of_lt hframe)]
    rcases perform_write hwrite with
      hsame | ⟨frame', hops', holder, name', value', hframe', hout, hbind⟩
    · rw [hsame]
    · rw [hstart, Option.some_inj] at hframe'
      subst hframe'
      have hne := ne_of_outward_copy hfounded' hframe hcopy hinner hout
      rw [hbind, find?_slots_bind, if_neg fun h => hne h.1.symm]

/-- A frame that binds a variable, and one inside it that does not. -/
def nested : FrameStore Nat := ((empty.perform .new).perform (.child 0)).perform (.define 0 "x" 1)

theorem leads_nested : Leads empty nested := by
  refine ((Leads.refl.step .new nofun).step (.child 0) fun frame h => ?_).step (.define 0 "x" 1)
    fun frame h => ?_ <;>
  · cases h
    decide

theorem distance_lookups_agree_nested :
    Leads empty nested ∧ nested.Nearest 1 "x" 1 0 ∧ nested.getAt 1 1 "x" = nested.get 1 "x" ∧
      nested.get 1 "x" = .ok 1 ∧
      nested.get 1 "y" = .error (.undefined "y") ∧
      (((nested.snapshot 1).perform (.assign 2 "x" 3)).slots 1).find? "x" =
      ((nested.snapshot 1).slots 1).find? "x" := by
  have hchain : ∀ hops other, nested.Outward 1 hops other → hops = 0 ∧ other = 1 ∨
      hops = 1 ∧ other = 0 := by
    intro hops other hother
    cases hother with
    | here => exact .inl ⟨rfl, rfl⟩
    | further haround hrest =>
        obtain rfl : 0 = _ := Option.some.inj haround
        cases hrest with
        | here => exact .inr ⟨rfl, rfl⟩
        | further haround' _ => exact nomatch (show none = some _ from haround')
  have hnearest : nested.Nearest 1 "x" 1 0 := by
    refine ⟨.further rfl .here, by decide, fun hops hlt other hother => ?_⟩
    rcases hchain hops other hother with ⟨-, rfl⟩ | ⟨rfl, -⟩
    · decide
    · exact absurd hlt (Nat.lt_irrefl _)
  have habsent : ∀ hops other, nested.Outward 1 hops other → ¬ nested.Binds other "y" := by
    intro hops other hother
    rcases hchain hops other hother with ⟨-, rfl⟩ | ⟨-, rfl⟩ <;> decide
  have hframe : (1 : FrameId) < nested.size := by decide
  obtain ⟨hagree, -, hcopies⟩ := distance_lookups_agree leads_nested hframe "x" 2
  obtain ⟨-, hundefined, -⟩ := distance_lookups_agree leads_nested hframe "y" 2
  obtain ⟨hsame, hvalue, -⟩ := hagree 1 0 hnearest
  exact ⟨leads_nested, hnearest, hsame, hvalue 1 (by decide), (hundefined habsent).1,
    hcopies _ .refl 2 0 .here _ rfl rfl "x"⟩

end TraitScript.FrameStore
