import TraitScript.Proofs.Account.Declare
import TraitScript.Proofs.Account.Holds

/-!
# An account of methods and their receivers

Functions and methods draw their identities from the same counter. A ledger records what each
identity was given to: a function that scripts get hold of, or a method in the table of a class or
trait. Scripts never get hold of the latter. What they get is a copy that is bound to a receiver,
with an identity of its own and a frame around it that was made for the receiver.

Every frame for a receiver stands in the frame of a method that the class of the receiver has, and
every frame for a call stands in an ordinary frame or in the frame of a receiver for the same
declaration.
-/

namespace TraitScript

open Eval

/-! ### Receivers -/

/-- A method that a value has: in the table of a class on the chain of its class, if it is an
instance, and in that of a metaclass on the chain of its metaclass, if it is a class. -/
def Value.Receives : Value → Closure → Prop
  | .object inst, method =>
    ∃ c ∈ inst.definingClass.chain, ∃ name, c.methods.find? name = some method
  | .classValue definition, method =>
    ∃ c ∈ definition.metaclass.chain, ∃ name, c.methods.find? name = some method
  | _, _ => False

/-- The class whose methods a value has. -/
def Value.home? : Value → Option Class
  | .object inst => some inst.definingClass
  | .classValue definition => some definition
  | _ => none

namespace Value

theorem receives_iff {v : Value} (hparallel : ∀ c, v.home? = some c → c.Parallel)
    {method : Closure} :
    v.Receives method ↔ ∃ c, v.home? = some c ∧ ∃ d ∈ c.chain, ∃ name,
      (d.table v.receiverKind).find? name = some method := by
  cases v with
  | object inst =>
      simp only [Receives, home?, receiverKind, Class.table, Option.some.injEq, exists_eq_left']
  | classValue definition =>
      have hchain := (hparallel definition rfl).chain_metaclass
      simp only [Receives, home?, receiverKind, Class.table, Option.some.injEq, exists_eq_left',
        hchain, List.mem_map, exists_exists_and_eq_and]
  | nil | bool _ | number _ | string _ | function _ | native _ | traitValue _ =>
      simp [Receives, home?]

/-- A method that is found on a class of the chain is received. -/
theorem receives_of_findMember {v : Value} {c d : Class} {name : String} {method : Closure}
    (hhome : v.home? = some c) (hparallel : c.Parallel) (hd : d ∈ c.chain)
    (hfind : d.findMember v.receiverKind name = some method) : v.Receives method := by
  have hfarther : d.Parallel := fun e he => hparallel e (Class.mem_chain_trans hd he)
  obtain ⟨e, he, htable⟩ := hfarther.mem_chain_of_findMember hfind
  have hhomes : ∀ c', v.home? = some c' → c'.Parallel := fun _ hc' =>
    Option.some.inj (hhome.symm.trans hc') ▸ hparallel
  exact (receives_iff hhomes).2 ⟨c, hhome, e, Class.mem_chain_trans hd he, name, htable⟩

theorem findMethod_eq_findMember {v : Value} {name : String} {method : Closure}
    (h : v.findMethod name = some method) :
    ∃ c, v.home? = some c ∧ c.findMember v.receiverKind name = some method := by
  cases v with
  | object inst => exact ⟨_, rfl, h⟩
  | classValue definition => exact ⟨_, rfl, h⟩
  | nil | bool _ | number _ | string _ | function _ | native _ | traitValue _ => cases h

end Value

theorem Eval.superMember_eq (definition : Class) (name : String) (kind : MethodKind) :
    superMember definition name kind = definition.findMember kind name := by
  cases kind <;> rfl

/-! ### The ledger -/

/-- What an identity was given to. -/
inductive Role where
  | function
  | method (kind : MethodKind)

/-- Frames in which code runs. -/
def Origin.IsScope : Origin → Prop
  | .globals | .block _ | .loop _ | .call _ => True
  | .receiver .. | .superclass .. => False

def Machine.IsScope (m : Machine) (frame : FrameId) : Prop :=
  ∃ origin, m.origins[frame]? = some origin ∧ origin.IsScope

section Filed

variable (role : Nat → Role) (m : Machine)

/-- A method in a table, with the superclass of the class that has it. It was made in an ordinary
frame, or in the frame of that superclass. -/
structure Closure.Filed (kind : MethodKind) (parent : Option Class) (method : Closure) : Prop where
  old : method.id < m.nextId
  role : role method.id = .method kind
  frame : m.IsScope method.frame ∨
    ∃ declaration superclass, m.origins[method.frame]? = some (.superclass declaration superclass) ∧
      parent = some superclass

/-- A function that scripts can get hold of. It was made in an ordinary frame, or it is bound to a
receiver. -/
structure Closure.Free (closure : Closure) : Prop where
  old : closure.id < m.nextId
  role : role closure.id = .function
  frame : m.IsScope closure.frame ∨ ∃ v, m.origins[closure.frame]? = some (.receiver closure.decl v)

def MethodTable.Filed (kind : MethodKind) (parent : Option Class) (table : MethodTable) : Prop :=
  ∀ {name : String} {method : Closure}, Table.find? table name = some method →
    method.Filed role m kind parent

structure Class.Filed (c : Class) : Prop where
  parallel : c.Parallel
  table : ∀ {d : Class}, d ∈ c.chain →
      ∀ kind, MethodTable.Filed role m kind d.superclass (d.table kind)

/-- Traits know no superclass. -/
def Trait.Filed (t : Trait) : Prop := ∀ kind, MethodTable.Filed role m kind none (t.table kind)

def Value.Filed : Value → Prop
  | .function closure => closure.Free role m
  | .classValue definition => definition.Filed role m
  | .object inst => inst.definingClass.Filed role m
  | .traitValue definition => definition.Filed role m
  | .nil | .bool _ | .number _ | .string _ | .native _ => True

/-- What a frame was made for goes with the frame around it. -/
def Machine.Rightful (frame : FrameId) : Origin → Prop
  | .receiver decl v =>
    ∃ method : Closure, method.decl = decl ∧ m.frames.enclosing? frame = some method.frame ∧
      v.Receives method ∧
    v.Filed role m
  | .call decl => ∃ around, m.frames.enclosing? frame = some around ∧
    (m.IsScope around ∨ ∃ v, m.origins[around]? = some (.receiver decl v))
  | .globals | .block _ | .loop _ | .superclass .. => True

structure Machine.Filed : Prop where
  size : m.origins.size = m.frames.size
  current : m.IsScope m.current
  globals : m.IsScope m.globals
  values : ∀ {v}, m.Holds v → v.Filed role m
  frames : ∀ {frame : FrameId} {origin : Origin}, m.origins[frame]? = some origin →
      m.Rightful role frame origin
  natives : ∀ native ∈ m.natives, native.Honest

/-- Identities that were given away keep their roles. -/
structure Grown (role' : Nat → Role) (m' : Machine) : Prop where
  further : m.Extends m'
  nextId : m.nextId ≤ m'.nextId
  roles : ∀ id, id < m.nextId → role' id = role id

end Filed

/-- The class whose methods a value has is filed with it. -/
theorem Value.Filed.home {role : Nat → Role} {m : Machine} {c : Class}
    {v : Value} (hv : v.Filed role m) (hhome : v.home? = some c) :
    c.Filed role m := by
  cases v with
  | object _ | classValue _ =>
      cases hhome
      exact hv
  | nil | bool _ | number _ | string _ | function _ | native _ | traitValue _ => cases hhome

section Growth

variable {role role' role'' : Nat → Role} {m m' m'' : Machine}

theorem Grown.refl (role : Nat → Role) (m : Machine) : Grown role m role m :=
  ⟨.refl m, Nat.le_refl _, fun _ _ => rfl⟩

theorem Grown.trans (h : Grown role m role' m') (h' : Grown role' m' role'' m'') :
    Grown role m role'' m'' :=
  ⟨h.further.trans h'.further, Nat.le_trans h.nextId h'.nextId,
    fun id hid => (h'.roles id (Nat.lt_of_lt_of_le hid h.nextId)).trans (h.roles id hid)⟩

variable (h : Grown role m role' m')

include h

theorem Machine.IsScope.mono {frame : FrameId} (hscope : m.IsScope frame) : m'.IsScope frame := by
  obtain ⟨origin, horigin, hplain⟩ := hscope
  exact ⟨origin, h.further.origins horigin, hplain⟩

theorem Closure.Filed.mono {kind : MethodKind} {parent : Option Class} {method : Closure}
    (hfiled : method.Filed role m kind parent) :
    method.Filed role' m' kind parent := by
  refine ⟨Nat.lt_of_lt_of_le hfiled.old h.nextId, (h.roles _ hfiled.old).trans hfiled.role, ?_⟩
  refine hfiled.frame.imp (fun hscope => hscope.mono h)
    fun ⟨declaration, superclass, horigin, hparent⟩ => ?_
  exact ⟨declaration, superclass, h.further.origins horigin, hparent⟩

theorem Closure.Free.mono {closure : Closure} (hfree : closure.Free role m) :
    closure.Free role' m' := by
  refine ⟨Nat.lt_of_lt_of_le hfree.old h.nextId, (h.roles _ hfree.old).trans hfree.role, ?_⟩
  exact hfree.frame.imp (fun hscope => hscope.mono h) fun ⟨v, horigin⟩ =>
    ⟨v, h.further.origins horigin⟩

theorem Value.Filed.mono {v : Value} (hv : v.Filed role m) : v.Filed role' m' := by
  cases v with
  | function _ => exact Closure.Free.mono h hv
  | classValue _ | object _ =>
    exact ⟨hv.parallel, fun hd kind _ _ hfind => (hv.table hd kind hfind).mono h⟩
  | traitValue _ => exact fun kind _ _ hfind => (hv kind hfind).mono h
  | nil | bool _ | number _ | string _ | native _ => trivial

theorem Machine.Rightful.mono {frame : FrameId} {origin : Origin}
    (hframe : m.Rightful role frame origin) : m'.Rightful role' frame origin := by
  cases origin with
  | receiver decl v =>
      obtain ⟨method, hdecl, henclosing, hreceives, hv⟩ := hframe
      exact ⟨method, hdecl, h.further.enclosing henclosing, hreceives, hv.mono h⟩
  | call decl =>
      obtain ⟨around, henclosing, haround⟩ := hframe
      refine ⟨around, h.further.enclosing henclosing, ?_⟩
      exact haround.imp (fun hscope => hscope.mono h) fun ⟨v, horigin⟩ =>
        ⟨v, h.further.origins horigin⟩
  | globals | block _ | loop _ | superclass _ _ => trivial

end Growth

namespace Account

/-- A ledger goes with the machine it was kept for. -/
structure Ledger where
  role : Nat → Role
  machine : Machine

/-- The account of methods and receivers. -/
def receivers : Account where
  Known := Ledger
  le k k' := Grown k.role k.machine k'.role k'.machine
  fits k m := k.machine = m ∧ m.Filed k.role
  admits k v := v.Filed k.role k.machine
  scope k frame := k.machine.IsScope frame
  receives _ v method := v.Receives method

namespace receivers

variable {role role' : Nat → Role} {m m' : Machine} {P : Ledger → Prop}

/-- A machine that has grown: what is new in it is filed, and its new frames are rightful. -/
theorem later (hm : m.Filed role) (hgrown : Grown role m role' m')
    (hsize : m'.origins.size = m'.frames.size) (hcurrent : m'.IsScope m'.current)
    (hvalues : ∀ {v}, m'.Holds v → m.Holds v ∨ v.Filed role' m')
    (hframes : ∀ {frame : FrameId} {origin : Origin}, m'.origins[frame]? = some origin →
      m.origins[frame]? = some origin ∨ m'.Rightful role' frame origin)
    (hnatives : m'.natives = m.natives) (hP : P ⟨role', m'⟩) : receivers.Later ⟨role, m⟩ m' P := by
  refine ⟨⟨role', m'⟩, hgrown, ⟨rfl, hsize, hcurrent, ?_, fun hv => ?_, fun horigin => ?_, ?_⟩, hP⟩
  · rw [hgrown.further.globals]
    exact hm.globals.mono hgrown
  · exact (hvalues hv).elim (fun hold => (hm.values hold).mono hgrown) id
  · exact (hframes horigin).elim (fun hold => (hm.frames hold).mono hgrown) id
  · rw [hnatives]
    exact hm.natives

/-- The same for a machine with the same frames. -/
theorem later_of_frames (hm : m.Filed role) (hframes : m'.frames = m.frames)
    (horigins : m'.origins = m.origins) (hgrown : Grown role m role' m')
    (hcurrent : m'.IsScope m'.current) (hvalues : ∀ {v}, m'.Holds v → m.Holds v ∨ v.Filed role' m')
    (hnatives : m'.natives = m.natives) (hP : P ⟨role', m'⟩) : receivers.Later ⟨role, m⟩ m' P := by
  refine later hm hgrown ?_ hcurrent hvalues (fun horigin => .inl ?_) hnatives hP
  · rw [hframes, horigins]
    exact hm.size
  · rw [← horigins]
    exact horigin

/-- The same for a machine with one more frame. -/
theorem later_of_push {origin : Origin} {frame : Frame Value} (hm : m.Filed role)
    (hframes : m'.frames = m.frames.add frame) (horigins : m'.origins = m.origins.push origin)
    (hgrown : Grown role m role' m') (hcurrent : m'.IsScope m'.current)
    (hvalues : ∀ {v}, m'.Holds v → m.Holds v ∨ v.Filed role' m')
    (hrightful : m'.Rightful role' m.frames.size origin) (hnatives : m'.natives = m.natives)
    (hP : P ⟨role', m'⟩) : receivers.Later ⟨role, m⟩ m' P := by
  refine later hm hgrown ?_ hcurrent hvalues (fun {id other} hother => ?_) hnatives hP
  · rw [horigins, hframes, Array.size_push, FrameStore.size_add, hm.size]
  · rw [horigins, Array.getElem?_push, hm.size] at hother
    split at hother
    next hid =>
      cases hother
      rw [hid]
      exact .inr hrightful
    next => exact .inl hother

/-! ### Primitives -/

/-- The role of one new identity. -/
def withRole (role : Nat → Role) (nextId : Nat) (new : Role) : Nat → Role :=
  fun id => if id < nextId then role id else new

theorem withRole_old (role : Nat → Role) (nextId : Nat) (new : Role) (id : Nat) (h : id < nextId) :
    withRole role nextId new id = role id :=
  if_pos h

theorem withRole_new (role : Nat → Role) (nextId : Nat) (new : Role) :
    withRole role nextId new nextId = new := if_neg (Nat.lt_irrefl _)

theorem grown_of_frames (hframes : m'.frames = m.frames) (horigins : m'.origins = m.origins)
    (hglobals : m'.globals = m.globals) (hnextId : m.nextId = m'.nextId)
    (hnatives : ∀ {id : Nat} {native : Native}, m.natives[id]? = some native →
      m'.natives[id]? = some native) : Grown role m role m' :=
  ⟨⟨hglobals, fun ho => by rw [horigins]; exact ho, fun he => by rw [hframes]; exact he, hnatives⟩,
    Nat.le_of_eq hnextId, fun _ _ => rfl⟩

theorem grown_addFrame (origin : Origin) (frame : Frame Value) :
    Grown role m role (m.addFrame origin frame) :=
  ⟨m.extends_addFrame origin frame, Nat.le_refl _, fun _ _ => rfl⟩

theorem isScope_addFrame (hm : m.Filed role) {origin : Origin} (horigin : origin.IsScope)
    (frame : Frame Value) :
    (m.addFrame origin frame).IsScope m.frames.size :=
  ⟨origin, m.origin_addFrame hm.size origin frame, horigin⟩

theorem enclosing?_addFrame (origin : Origin) (slots : Table (Option Value))
    (around : Option FrameId) :
    (m.addFrame origin ⟨slots, around⟩).frames.enclosing? m.frames.size = around := by
  rw [Machine.addFrame, FrameStore.enclosing?_add, if_pos rfl]

theorem later_bind (hm : m.Filed role) {frame : FrameId} {name : String} {value : Option Value}
    (hvalue : ∀ v, value = some v → v.Filed role m) :
    receivers.Later ⟨role, m⟩ { m with frames := m.frames.bind frame name value } fun _ =>
      True := by
  have hgrown : Grown role m role { m with frames := m.frames.bind frame name value } :=
    ⟨Regime.Sound.extends_bind m frame name value, Nat.le_refl _, fun _ _ => rfl⟩
  refine later hm hgrown ?_ hm.current (fun h => ?_) .inl rfl trivial
  · rw [FrameStore.size_bind]
    exact hm.size
  · exact h.of_bind.imp_right fun hv => (hvalue _ hv).mono hgrown

theorem later_setField (hm : m.Filed role) {holder : Nat} {name : String} {v : Value}
    (hv : v.Filed role m) :
    receivers.Later ⟨role, m⟩ { m with fields := m.fields.modify holder (·.insert name v) } fun _ =>
      True := by
  have hgrown : Grown role m role { m with fields := m.fields.modify holder (·.insert name v) } :=
    grown_of_frames rfl rfl rfl rfl id
  refine later_of_frames hm rfl rfl hgrown hm.current (fun h => ?_) rfl trivial
  refine h.of_setField.imp_right fun heq => ?_
  rw [heq]
  exact hv.mono hgrown

/-- A frame without variables. -/
theorem later_addFrame (hm : m.Filed role) {origin : Origin} {around : FrameId}
    (hscope : origin.IsScope)
    (hrightful : (m.addFrame origin ⟨∅, some around⟩).Rightful role m.frames.size origin) :
    receivers.Later ⟨role, m⟩ (m.addFrame origin ⟨∅, some around⟩) fun k' =>
      k'.machine.IsScope m.frames.size := by
  have hgrown : Grown role m role (m.addFrame origin ⟨∅, some around⟩) := grown_addFrame _ _
  refine later_of_push hm rfl rfl hgrown (hm.current.mono hgrown) (fun h => ?_) hrightful rfl
    (isScope_addFrame hm hscope _)
  exact h.of_addFrame.imp_right fun ⟨_, hname⟩ => nomatch hname

theorem later_statement (hm : m.Filed role) {origin : Origin} (horigin : origin.OfStatement)
    (around : FrameId) :
    receivers.Later ⟨role, m⟩ (m.addFrame origin ⟨∅, some around⟩) fun k' =>
      k'.machine.IsScope m.frames.size := by
  cases origin with
  | block _ | loop _ => exact later_addFrame hm trivial trivial
  | globals | call _ | receiver _ _ | superclass _ _ => exact horigin.elim

theorem later_call (hm : m.Filed role) {closure : Closure} (hclosure : closure.Free role m) :
    receivers.Later ⟨role, m⟩ (m.addFrame (.call closure.decl) ⟨∅, some closure.frame⟩) fun k' =>
      k'.machine.IsScope m.frames.size :=
  later_addFrame hm trivial ⟨closure.frame, enclosing?_addFrame _ _ _,
    (hclosure.mono (grown_addFrame _ _)).frame⟩

/-- The copy of a frame stands in the same frame as what it was copied from. -/
theorem later_nextRound (hm : m.Filed role) :
    receivers.Later ⟨role, m⟩ m.nextRound fun _ => True := by
  obtain ⟨origin, horigin, hscope⟩ := hm.current
  let copy : Frame Value := ⟨m.frames.slots m.current, m.frames.enclosing? m.current⟩
  have horigins : m.nextRound.origins = m.origins.push origin := by
    show m.origins.push (m.origins[m.current]?.getD .globals) = _
    rw [horigin]
    rfl
  have hgrown : Grown role m role m.nextRound := by
    have hext := m.extends_addFrame origin copy
    exact ⟨⟨rfl, fun ho => horigins ▸ hext.origins ho, hext.enclosing, id⟩, Nat.le_refl _,
      fun _ _ => rfl⟩
  have hcurrent : m.nextRound.IsScope m.nextRound.current := by
    refine ⟨origin, ?_, hscope⟩
    rw [horigins]
    exact m.origin_addFrame hm.size origin copy
  have hframes : m.nextRound.frames = m.frames.add copy := rfl
  refine later_of_push hm hframes horigins hgrown hcurrent (fun h => .inl h.of_nextRound)
    ?_ rfl trivial
  have hrightful := hm.frames horigin
  cases origin with
  | call decl =>
      obtain ⟨around, henclosing, haround⟩ := hrightful.mono hgrown
      obtain ⟨around', henclosing', -⟩ := hrightful
      refine ⟨around, ?_, haround⟩
      rw [← henclosing, hgrown.further.enclosing henclosing', ← henclosing']
      exact enclosing?_addFrame (.call decl) copy.slots copy.enclosing
  | globals | block _ | loop _ => trivial
  | receiver _ _ | superclass _ _ => exact hscope.elim

theorem later_function (hm : m.Filed role) (decl : FunctionDecl) :
    receivers.Later ⟨role, m⟩ { m with nextId := m.nextId + 1 }
      fun k' => Closure.Free k'.role k'.machine ⟨m.nextId, decl, m.current, false⟩ := by
  have hgrown : Grown role m (withRole role m.nextId .function) { m with nextId := m.nextId + 1 } :=
    ⟨⟨rfl, id, id, id⟩, Nat.le_succ _, withRole_old role m.nextId .function⟩
  refine later_of_frames hm rfl rfl hgrown hm.current (fun h => .inl (h.congr rfl rfl)) rfl ?_
  exact ⟨Nat.lt_succ_self _, withRole_new role m.nextId .function, .inl hm.current⟩

theorem later_receiver (hm : m.Filed role) {v : Value} {method : Closure} (hv : v.Filed role m)
    (hreceives : v.Receives method) :
    receivers.Later ⟨role, m⟩ (m.addReceiver method v)
      fun k' => Closure.Free k'.role k'.machine
        { method with id := m.nextId, frame := m.frames.size } := by
  let frame : Frame Value := ⟨(∅ : Table (Option Value)).insert "this" (some v), some method.frame⟩
  have hgrown : Grown role m (withRole role m.nextId .function) (m.addReceiver method v) := by
    have hext := m.extends_addFrame (.receiver method.decl v) frame
    exact ⟨⟨hext.globals, hext.origins, hext.enclosing, hext.natives⟩, Nat.le_succ _,
      withRole_old role m.nextId .function⟩
  have horigin : (m.addReceiver method v).origins[m.frames.size]? =
      some (.receiver method.decl v) :=
    m.origin_addFrame hm.size (.receiver method.decl v) frame
  have hframes : (m.addReceiver method v).frames = m.frames.add frame := rfl
  refine later_of_push hm hframes rfl hgrown (hm.current.mono hgrown) (fun h => ?_) ?_ rfl ?_
  · refine h.of_addReceiver.imp_right fun heq => ?_
    rw [heq]
    exact hv.mono hgrown
  · exact ⟨method, rfl, enclosing?_addFrame (.receiver method.decl v) frame.slots frame.enclosing,
      hreceives, hv.mono hgrown⟩
  · exact ⟨Nat.lt_succ_self _, withRole_new role m.nextId .function, .inr ⟨v, horigin⟩⟩

end receivers

theorem lawful_receivers : receivers.Lawful where
  refl k := .refl k.role k.machine
  trans h h' := h.trans h'
  admits_mono hle h := h.mono hle
  scope_mono hle h := h.mono hle
  plain {_ v} h := by
    cases v with
    | nil | bool _ | number _ | string _ | native _ => trivial
    | function _ | classValue _ | object _ | traitValue _ => exact h.elim
  native := trivial
  slots := by
    rintro k m frame name v ⟨rfl, hm⟩ h
    exact hm.values (.slot h)
  fields := by
    rintro k m name v holder table ⟨rfl, hm⟩ htable h
    exact hm.values (.field htable h)
  natives hfits native hnative := .inl (hfits.2.natives native hnative)
  current := by
    rintro k m ⟨rfl, hm⟩
    exact hm.current
  globals := by
    rintro k m ⟨rfl, hm⟩
    exact hm.globals
  enter := by
    rintro k m frame ⟨rfl, hm⟩ hscope
    exact receivers.later_of_frames hm rfl rfl (receivers.grown_of_frames rfl rfl rfl rfl id) hscope
      (fun h => .inl (h.congr rfl rfl)) rfl trivial
  aside := by
    rintro k m output world distances ⟨rfl, hm⟩
    exact receivers.later_of_frames hm rfl rfl (receivers.grown_of_frames rfl rfl rfl rfl id)
      hm.current (fun h => .inl (h.congr rfl rfl)) rfl trivial
  bind := by
    rintro k m frame name value ⟨rfl, hm⟩ hvalue
    exact receivers.later_bind hm hvalue
  setField := by
    rintro k m holder name v ⟨rfl, hm⟩ hv
    exact receivers.later_setField hm hv
  statement := by
    rintro k m origin around ⟨rfl, hm⟩ horigin -
    exact receivers.later_statement hm horigin around
  call := by
    rintro k m closure ⟨rfl, hm⟩ hclosure
    exact receivers.later_call hm hclosure
  nextRound := by
    rintro k m ⟨rfl, hm⟩
    exact receivers.later_nextRound hm
  function := by
    rintro k m decl ⟨rfl, hm⟩
    exact receivers.later_function hm decl
  inst := by
    rintro k m definition ⟨rfl, hm⟩ hclass
    have hgrown : Grown k.role k.machine k.role { k.machine with
      fields := k.machine.fields.push ∅ } := receivers.grown_of_frames rfl rfl rfl rfl id
    refine receivers.later_of_frames hm rfl rfl hgrown hm.current
      (fun h => .inl h.of_newHolder) rfl ?_
    exact Value.Filed.mono (v := .object ⟨k.machine.fields.size, definition⟩) hgrown hclass
  finds hv hfind := by
    obtain ⟨c, hhome, hmember⟩ := Value.findMethod_eq_findMember hfind
    exact Value.receives_of_findMember hhome (hv.home hhome).parallel c.self_mem_chain hmember
  receiver := by
    rintro k m v method ⟨rfl, hm⟩ hv hreceives
    exact receivers.later_receiver hm hv hreceives

/-! ### Declarations -/

namespace receivers

variable {role : Nat → Role} {m m' : Machine} {body : ClassBody} {used : List Trait}
  {members : Members}

/-- The identities that a declaration gives away: class methods come first. -/
def declaredRole (role : Nat → Role) (m : Machine) (body : ClassBody) : Nat → Role := fun id =>
  if id < m.nextId then role id
  else if id < m.nextId + body.classMethods.length then .method .ofClass
  else .method .ofInstance

theorem declaredRole_old (role : Nat → Role) (m : Machine) (body : ClassBody) (id : Nat)
    (h : id < m.nextId) :
    declaredRole role m body id = role id :=
  if_pos h

theorem declaredRole_new (role : Nat → Role) (m : Machine) (body : ClassBody) (kind : MethodKind)
    {i : Nat} (hi : i < (body.members kind).length) :
    declaredRole role m body (m.firstId body kind + i) = .method kind := by
  cases kind with
  | ofClass =>
      have hnew : ¬ m.nextId + i < m.nextId := by omega
      have hclass : m.nextId + i < m.nextId + body.classMethods.length := Nat.add_lt_add_left hi _
      show declaredRole role m body (m.nextId + i) = _
      rw [declaredRole, if_neg hnew, if_pos hclass]
  | ofInstance =>
      have hnew : ¬ m.nextId + body.classMethods.length + i < m.nextId := by omega
      have hinstance : ¬ m.nextId + body.classMethods.length + i <
          m.nextId + body.classMethods.length := by omega
      show declaredRole role m body (m.nextId + body.classMethods.length + i) = _
      rw [declaredRole, if_neg hnew, if_neg hinstance]

theorem firstId_add_lt (m : Machine) (body : ClassBody) (kind : MethodKind) {i : Nat}
    (hi : i < (body.members kind).length) :
    m.firstId body kind + i < m.nextId + body.classMethods.length + body.methods.length := by
  cases kind with
  | ofClass =>
      have hclass : i < body.classMethods.length := hi
      show m.nextId + i < _
      omega
  | ofInstance => exact Nat.add_lt_add_left hi _

/-- What a declaration makes is filed, and so is what it takes over from traits. -/
theorem filed_declared (hgrown : Grown role m (declaredRole role m body) m')
    (hgathers : Members.Gathers {} used members) (hused : ∀ t ∈ used, t.Filed role m)
    (hnextId : m.nextId + body.classMethods.length + body.methods.length ≤ m'.nextId)
    {frame : FrameId} {parent : Option Class}
    (hframe : m'.IsScope frame ∨ ∃ declaration superclass,
      m'.origins[frame]? = some (.superclass declaration superclass) ∧ parent = some superclass)
    (kind : MethodKind) :
    MethodTable.Filed (declaredRole role m body) m' kind parent
      (m.declared body frame members kind) := by
  intro name method hmethod
  rcases find?_withMethods frame kind.isInitializer (body.members kind) (m.firstId body kind)
    (members.table kind) name with
    ⟨-, hfind⟩ | ⟨i, decl, hi, -, hfind⟩
  · rw [Machine.declared, hfind, hgathers.find?_of_empty] at hmethod
    obtain ⟨t, ht, htable⟩ := List.exists_of_findSome?_eq_some hmethod
    have hfiled := (hused t ht kind htable).mono hgrown
    refine ⟨hfiled.old, hfiled.role, .inl ?_⟩
    exact hfiled.frame.elim id fun ⟨_, _, _, hparent⟩ => nomatch hparent
  · rw [Machine.declared, hfind] at hmethod
    cases hmethod
    exact ⟨Nat.lt_of_lt_of_le (firstId_add_lt m body kind hi) hnextId,
      declaredRole_new role m body kind hi, hframe⟩

theorem later_addTrait (hm : m.Filed role) (name : Token)
    (hgathers : Members.Gathers {} used members) (hused : ∀ t ∈ used, t.Filed role m) :
    receivers.Later ⟨role, m⟩ (m.addTrait name body members) fun _ => True := by
  have hext := Regime.Sound.extends_bind m m.current name.lexeme
    (some (.traitValue (m.newTrait name body members)))
  have hgrown : Grown role m (declaredRole role m body) (m.addTrait name body members) := by
    refine ⟨⟨rfl, id, hext.enclosing, id⟩, ?_, declaredRole_old role m body⟩
    show m.nextId ≤ m.nextId + body.classMethods.length + body.methods.length + 1
    omega
  refine later hm hgrown ?_ hm.current (fun h => ?_) .inl rfl trivial
  · show m.origins.size = (m.frames.bind _ _ _).size
    rw [FrameStore.size_bind]
    exact hm.size
  · refine h.of_addTrait.imp_right fun heq => ?_
    rw [heq]
    intro kind
    rw [Machine.table_newTrait]
    exact filed_declared hgrown hgathers hused (Nat.le_succ _) (.inl (hm.current.mono hgrown)) kind

/-- The frame of the superclass, if there is one, is the one in which the methods are made. -/
theorem filed_addSuper (hm : m.Filed role) (declaration : Stmt) {superclass : Option Class}
    (hsuperclass : ∀ definition, superclass = some definition → definition.Filed role m) :
    (m.addSuper declaration superclass).Filed role ∧
      Grown role m role (m.addSuper declaration superclass) ∧
      ((m.addSuper declaration superclass).IsScope (m.memberFrame superclass) ∨
        ∃ declaration' definition,
        (m.addSuper declaration superclass).origins[m.memberFrame superclass]? =
        some (.superclass declaration' definition) ∧
          superclass = some definition) := by
  cases superclass with
  | none => exact ⟨hm, .refl role m, .inl hm.current⟩
  | some definition =>
      have hgrown : Grown role m role (m.addSuper declaration (some definition)) :=
        grown_addFrame _ _
      obtain ⟨k', -, ⟨-, hfiled⟩, hrole⟩ : receivers.Later ⟨role, m⟩
          (m.addSuper declaration (some definition)) fun k' => k'.role = role := by
        refine later_of_push hm rfl rfl hgrown (hm.current.mono hgrown) (fun h => ?_)
          trivial rfl rfl
        refine h.of_addSuper.imp_right fun ⟨_, hdefinition, heq⟩ => ?_
        rw [heq]
        exact Value.Filed.mono (v := .classValue _) hgrown (hsuperclass _ hdefinition)
      refine ⟨hrole ▸ hfiled, hgrown, .inr ⟨declaration, definition, ?_, rfl⟩⟩
      exact m.origin_addFrame hm.size _ _

theorem later_addClass (hm : m.Filed role) (name : Token) (parent : Option Expr)
    {superclass : Option Class}
    (hsuperclass : ∀ definition, superclass = some definition → definition.Filed role m)
    (hgathers : Members.Gathers {} used members) (hused : ∀ t ∈ used, t.Filed role m) :
    receivers.Later ⟨role, m⟩ (m.addClass name parent body superclass members) fun _ => True := by
  obtain ⟨hinside, hentered, hframe⟩ := filed_addSuper hm (.classDecl name parent body) hsuperclass
  have hext := Regime.Sound.extends_bind (m.addSuper (.classDecl name parent body) superclass)
    m.current name.lexeme
    (some (.classValue (m.newClass name body superclass members)))
  have hnextId := addSuper_nextId m (.classDecl name parent body) superclass
  have hgrown : Grown role m (declaredRole role m body)
      (m.addClass name parent body superclass members) := by
    refine ⟨⟨?_, fun ho => hentered.further.origins ho,
      fun he => hext.enclosing (hentered.further.enclosing he),
      fun hn => hentered.further.natives hn⟩, ?_, declaredRole_old role m body⟩
    · exact hentered.further.globals
    · show m.nextId ≤ m.nextId + body.classMethods.length + body.methods.length
      omega
  have hcurrent : (m.addClass name parent body superclass members).current = m.current := by
    cases superclass <;> rfl
  refine later hm hgrown ?_ ?_ (fun h => ?_) (fun {frame origin} horigin => ?_) ?_ trivial
  · show (m.addSuper _ _).origins.size = ((m.addSuper _ _).frames.bind _ _ _).size
    rw [FrameStore.size_bind]
    exact hinside.size
  · rw [hcurrent]
    exact hm.current.mono hgrown
  · refine h.of_addClass.imp_right fun hnew => ?_
    rcases hnew with ⟨definition, hdefinition, rfl⟩ | rfl
    · exact Value.Filed.mono (v := .classValue definition) hgrown
        (hsuperclass definition hdefinition)
    · have hparallel := Class.parallel_of_superclass (c := m.newClass name body superclass members)
        rfl fun definition hdefinition => (hsuperclass definition hdefinition).parallel
      refine ⟨hparallel, fun {d} hd kind => ?_⟩
      rw [Class.chain_eq] at hd
      rcases List.mem_cons.1 hd with rfl | houter
      · rw [Machine.table_newClass]
        exact filed_declared hgrown hgathers hused (Nat.le_refl _) hframe kind
      · cases superclass with
        | none => cases houter
        | some definition =>
            have hfiled : (Value.classValue definition).Filed _ _ :=
              Value.Filed.mono hgrown (hsuperclass definition rfl)
            exact fun _ _ => hfiled.table houter kind
  · have hrightful : (m.addSuper (.classDecl name parent body) superclass).Rightful role frame
        origin := hinside.frames horigin
    have hbound : Grown role (m.addSuper (.classDecl name parent body) superclass)
        (declaredRole role m body)
        (m.addClass name parent body superclass members) := by
      refine ⟨⟨rfl, id, hext.enclosing, id⟩, ?_, fun id hid => ?_⟩
      · rw [hnextId]
        exact hgrown.nextId
      · rw [hnextId] at hid
        exact declaredRole_old role m body id hid
    exact .inr (hrightful.mono hbound)
  · cases superclass <;> rfl

end receivers
end Account
end TraitScript
