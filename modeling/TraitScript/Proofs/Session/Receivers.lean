import TraitScript.Proofs.Account.Receivers
import TraitScript.Proofs.Account.Session
import TraitScript.Proofs.Session.Superclass

/-!
# Methods and their receivers

In a session that reads text a method is bound to a receiver before anything else is done with it,
and the receiver has it: it is an instance and the method stands in the table of a class on the
chain of its class, or it is a class and the method stands in the table of a metaclass on the chain
of its metaclass. When the body of a bound method runs, `this` is that receiver.

What has to be known of programs that were read from text concerns `super`, which looks a method up
on another class than that of the receiver: the method around it stands in a subclass of that class.
-/

namespace TraitScript

open Eval

/-! ### What `super` binds -/

/-- The frame at the next distance is the one around. -/
theorem FrameStore.enclosing?_of_ancestorFrom {α : Type} {store : FrameStore α}
    {distance distance' left : Nat} {frame inner outer : FrameId}
    (hinner : store.ancestorFrom distance left frame = .ok inner)
    (houter : store.ancestorFrom distance' (left + 1) frame = .ok outer) :
    store.enclosing? inner = some outer := by
  induction left generalizing frame with
  | zero =>
      obtain rfl : frame = inner := Except.ok.inj hinner
      rw [ancestorFrom] at houter
      cases henclosing : store.enclosing? frame with
      | none =>
          rw [henclosing] at houter
          cases houter
      | some next =>
          rw [henclosing] at houter
          exact congrArg some (Except.ok.inj houter)
  | succ left ih =>
      rw [ancestorFrom] at hinner houter
      cases henclosing : store.enclosing? frame with
      | none =>
          rw [henclosing] at hinner
          cases hinner
      | some next =>
          rw [henclosing] at hinner houter
          exact ih hinner houter

section Filed

variable {role : Nat → Role} {m : Machine} {v : Value}

theorem Value.Filed.receives_iff (h : v.Filed role m) {method : Closure} :
    v.Receives method ↔ ∃ c, v.home? = some c ∧ ∃ d ∈ c.chain, ∃ name,
      (d.table v.receiverKind).find? name = some method :=
  Value.receives_iff fun _ hhome => (h.home hhome).parallel

/-- A receiver that has a method made in the frame of a superclass belongs to a subclass of it. -/
theorem Value.Filed.mem_chain_of_receives {method : Closure} {declaration : Stmt}
    {definition : Class} (h : v.Filed role m) (hreceives : v.Receives method)
    (hframe : m.origins[method.frame]? = some (.superclass declaration definition)) :
    ∃ c, v.home? = some c ∧ definition ∈ c.chain := by
  obtain ⟨c, hhome, d, hd, name, htable⟩ := h.receives_iff.1 hreceives
  have hmethod := (h.home hhome).table hd v.receiverKind htable
  rcases hmethod.frame with ⟨origin, horigin, hscope⟩ | ⟨declaration', superclass, horigin, hparent⟩
  · rw [hframe] at horigin
    cases horigin
    exact hscope.elim
  · rw [hframe] at horigin
    cases horigin
    exact ⟨c, hhome, Class.mem_chain_trans hd (Class.superclass_mem_chain hparent)⟩

end Filed

/-- Where `super` finds its frames, the receiver has the method that it finds. -/
theorem Account.receivers.keeps_superTarget {k : receivers.Known} {m : Machine} {p : Place}
    {id : Nat} {keyword method : Token} (h : m.FindsSuper p id keyword method) :
    receivers.Keeps True k (superTarget id keyword method) (superTarget id keyword method)
      receivers.Targets m := by
  obtain ⟨distance, declaration, kind, decl, definition, receiver, hdistance, hat, hframes, -⟩ := h
  have htarget := superTarget_eq hdistance hat.two_le hframes keyword method
  rw [superMember_eq, hframes.receiver_kind] at htarget
  cases hfound : definition.findMember kind method.lexeme with
  | none =>
      rw [hfound] at htarget
      exact keeps_of_error lawful_receivers htarget
  | some found =>
      rw [hfound] at htarget
      refine keeps_of_read lawful_receivers (found, receiver) htarget ?_
      rintro ⟨rfl, hm⟩
      obtain ⟨outer, houter, hsuperclass, -⟩ := hframes.superclass_frame
      obtain ⟨inner, hinner, hreceiver, -⟩ := hframes.receiver_frame
      -- The receiver was bound to the method around `super`, which was made in the frame of the
      -- superclass.
      obtain ⟨around, -, henclosing, hreceives, hfiled⟩ := hm.frames hreceiver
      have hpos := hat.two_le
      have hnext : distance = distance - 1 + 1 := by omega
      rw [FrameStore.ancestor, hnext] at houter
      have hframe : around.frame = outer :=
        Option.some.inj
          (henclosing.symm.trans (FrameStore.enclosing?_of_ancestorFrom hinner houter))
      rw [← hframe] at hsuperclass
      obtain ⟨c, hhome, hchain⟩ := hfiled.mem_chain_of_receives hreceives hsuperclass
      rw [← hframes.receiver_kind] at hfound
      exact ⟨hfiled, Value.receives_of_findMember hhome (hfiled.home hhome).parallel hchain hfound⟩

/-! ### What is known of texts -/

/-- Frames of receivers bind `this` to what they were made for. -/
def Machine.BindsReceivers (m : Machine) : Prop :=
  ∀ {frame : FrameId} {decl : FunctionDecl} {v : Value}, m.origins[frame]? =
    some (.receiver decl v) → m.frames.read frame "this" = .ok v

def memberWatch : Watch where
  evaluate expr m _ := m.BindsReceivers ∧ ∀ id keyword method, expr = .super id keyword method →
    ∃ p, m.FindsSuper p id keyword method
  execute _ m _ := m.BindsReceivers
  executeBlock _ _ m _ := m.BindsReceivers
  executeTop _ m _ := m.BindsReceivers

theorem follows_memberWatch (programs : List (List Stmt)) :
    Session.FollowsAll programs memberWatch := by
  intro done distances hdone
  have hbinds : ∀ {m : Machine}, (Regime.text done distances).Sound m → m.BindsReceivers :=
    fun hsound _ _ _ horigin => read_of_find? (hsound.receivers trivial horigin)
  refine ⟨fun hallows hsound hlinked result hends =>
    ⟨hbinds hsound, fun id keyword method hexpr => ?_⟩,
    fun _ hsound _ _ _ => hbinds hsound, fun _ _ hsound _ _ _ =>
      hbinds hsound, fun _ _ hsound _ _ _ => hbinds hsound⟩
  obtain ⟨-, -, p, -, hfinds⟩ :=
    (follows_superWatch programs done distances hdone).evaluate hallows hsound hlinked hends id
      keyword method hexpr
  exact ⟨p, hfinds⟩

theorem Account.handles_receivers (stop : Stop) : receivers.Handles memberWatch stop where
  declares hself := by
    constructor
    · intro k name parent body m
      refine keeps_declareClass lawful_receivers hself
        fun _ hfits _ hdeclares hsuperclass hused => ?_
      obtain ⟨rfl, hm⟩ := hfits
      exact receivers.later_addClass hm name parent hsuperclass hdeclares.gathers hused
    · intro k name body m
      refine keeps_declareTrait lawful_receivers hself fun _ hfits _ hdeclares hused => ?_
      obtain ⟨rfl, hm⟩ := hfits
      exact receivers.later_addTrait hm name hdeclares.gathers hused
  superTarget {_ id keyword method _ _} h := by
    obtain ⟨p, hfinds⟩ := h.2 id keyword method rfl
    exact receivers.keeps_superTarget hfinds

/-! ### At every moment -/

/-- A method in a table of one of the classes or traits that a value gives access to. -/
def Value.HasMethod (kind : MethodKind) (method : Closure) : Value → Prop
  | .classValue definition =>
    ∃ c ∈ definition.chain, ∃ name, (c.table kind).find? name = some method
  | .object inst => ∃ c ∈ inst.definingClass.chain, ∃ name, (c.table kind).find? name = some method
  | .traitValue definition => ∃ name, (definition.table kind).find? name = some method
  | .nil | .bool _ | .number _ | .string _ | .function _ | .native _ => False

namespace Machine

variable (m : Machine)

/-- A value that the machine holds or that is in use. -/
def Knows (given : List Value) (v : Value) : Prop := m.Holds v ∨ v ∈ given

/-- The frame of a function that may be called: an ordinary one, or that of a receiver that has the
method which was bound to it. -/
def Callable (decl : FunctionDecl) (frame : FrameId) : Prop :=
  m.IsScope frame ∨ ∃ v method, m.origins[frame]? = some (.receiver decl v) ∧ method.decl = decl ∧
    m.frames.enclosing? frame = some method.frame ∧ v.Receives method

/-- Methods in tables are for instances or for classes, and no function is one of them. -/
structure Apart (given : List Value) : Prop where
  kinds : ∀ {v w : Value} {kind kind' : MethodKind} {method method' : Closure}, m.Knows given v →
      m.Knows given w → v.HasMethod kind method →
    w.HasMethod kind' method' → method.id = method'.id → kind = kind'
  functions : ∀ {closure method : Closure} {v : Value} {kind : MethodKind},
      m.Knows given (.function closure) → m.Knows given v →
    v.HasMethod kind method → method.id ≠ closure.id
  callable : ∀ {closure : Closure}, m.Knows given (.function closure) →
      m.Callable closure.decl closure.frame

/-- The body of a function runs in a frame around which there is nothing but an ordinary frame, or
the frame of a receiver that is bound to `this` and has the method. -/
def BodyReceived (frame : FrameId) : Prop :=
  ∀ decl, m.origins[frame]? = some (.call decl) →
    ∃ around, m.frames.enclosing? frame = some around ∧ m.Callable decl around ∧
    ∀ v, m.origins[around]? = some (.receiver decl v) → m.frames.read around "this" = .ok v

end Machine

/-- Functions are kept apart from the methods in tables wherever code runs and at every call,
methods are bound to receivers that have them, and bodies of methods run with these receivers. -/
def receiverOversight : Oversight where
  evaluate expr m result := memberWatch.evaluate expr m result ∧ m.Apart []
  execute _ m _ := m.BindsReceivers ∧ m.Apart []
  executeBlock _ frame m _ := m.BindsReceivers ∧ m.Apart [] ∧ m.BodyReceived frame
  executeTop _ m _ := m.BindsReceivers ∧ m.Apart []
  invoke callee _ arguments m _ := m.Apart (callee :: arguments)
  bind method v m := v.Receives method ∧
    ∀ {w kind other}, m.Knows [v] w → w.HasMethod kind other → other.id = method.id →
      kind = v.receiverKind

section Apart

variable {role : Nat → Role} {m : Machine} {v : Value}

theorem Value.Filed.role_of_hasMethod {kind : MethodKind} {method : Closure} (h : v.Filed role m)
    (hmethod : v.HasMethod kind method) :
    role method.id = .method kind := by
  cases v with
  | classValue _ | object _ =>
      obtain ⟨c, hc, name, htable⟩ := hmethod
      exact (h.table hc kind htable).role
  | traitValue _ =>
      obtain ⟨name, htable⟩ := hmethod
      exact (h kind htable).role
  | nil | bool _ | number _ | string _ | function _ | native _ => exact hmethod.elim

theorem Value.Filed.role_of_receives {method : Closure} (h : v.Filed role m)
    (hreceives : v.Receives method) :
    role method.id = .method v.receiverKind := by
  obtain ⟨c, hhome, d, hd, name, htable⟩ := h.receives_iff.1 hreceives
  exact ((h.home hhome).table hd v.receiverKind htable).role

variable (hm : m.Filed role)

include hm

theorem Machine.Filed.known {given : List Value} (hgiven : ∀ v ∈ given, v.Filed role m)
    (h : m.Knows given v) : v.Filed role m :=
  h.elim hm.values (hgiven v)

theorem Machine.Filed.callable {decl : FunctionDecl} {frame : FrameId}
    (h : m.IsScope frame ∨ ∃ v, m.origins[frame]? = some (.receiver decl v)) :
    m.Callable decl frame := by
  refine h.imp_right fun ⟨v, horigin⟩ => ?_
  obtain ⟨method, hdecl, henclosing, hreceives, -⟩ := hm.frames horigin
  exact ⟨v, method, horigin, hdecl, henclosing, hreceives⟩

theorem Machine.Filed.apart {given : List Value} (hgiven : ∀ v ∈ given, v.Filed role m) :
    m.Apart given where
  kinds hv hw hmethod hmethod' hid := by
    have hrole := (hm.known hgiven hv).role_of_hasMethod hmethod
    rw [hid, (hm.known hgiven hw).role_of_hasMethod hmethod'] at hrole
    exact (Role.method.inj hrole).symm
  functions hclosure hv hmethod hid := by
    have hrole := (hm.known hgiven hv).role_of_hasMethod hmethod
    rw [hid, (hm.known hgiven hclosure).role] at hrole
    cases hrole
  callable hclosure := hm.callable (hm.known hgiven hclosure).frame

theorem Machine.Filed.bodyReceived (hbinds : m.BindsReceivers) (frame : FrameId) :
    m.BodyReceived frame := by
  intro decl horigin
  obtain ⟨around, henclosing, haround⟩ := hm.frames horigin
  exact ⟨around, henclosing, hm.callable haround, fun _ hreceiver => hbinds hreceiver⟩

end Apart

namespace Account

theorem shows_receiverOversight : receivers.Shows memberWatch receiverOversight where
  evaluate_assumed h := h.1
  execute_assumed h := h.1
  executeBlock_assumed h := h.1
  executeTop_assumed h := h.1
  evaluate hassumed hfits _ := ⟨hassumed, hfits.2.apart (by simp)⟩
  execute hassumed hfits _ := ⟨hassumed, hfits.2.apart (by simp)⟩
  executeBlock hassumed hfits _ _ :=
    ⟨hassumed, hfits.2.apart (by simp), hfits.2.bodyReceived hassumed _⟩
  executeTop hassumed hfits _ := ⟨hassumed, hfits.2.apart (by simp)⟩
  invoke {_ _ _ _ _ _} hfits hcallee harguments _ := by
    obtain ⟨rfl, hm⟩ := hfits
    exact hm.apart (List.forall_mem_cons.2 ⟨hcallee, harguments⟩)
  binds {_ m v method} hfits hv hreceives := by
    obtain ⟨rfl, hm⟩ := hfits
    refine ⟨hreceives, fun {w kind other} hw hmethod hid => ?_⟩
    have hknown : w.Filed _ _ := hm.known (List.forall_mem_singleton.2 hv) hw
    have hrole := hknown.role_of_hasMethod hmethod
    rw [hid, Value.Filed.role_of_receives hv hreceives] at hrole
    exact (Role.method.inj hrole).symm

theorem receivers_fit_start {natives : List Native} (hnatives : ∀ native ∈ natives, native.Honest)
    (world : World) :
    ∃ k, receivers.fits k (Machine.start natives world) := by
  refine fits_start lawful_receivers (fun {k m native} hfits hnative => ?_) hnatives
    ⟨⟨fun _ => .function, .bare world⟩, rfl, ?_⟩
  · obtain ⟨rfl, hm⟩ := hfits
    have hgrown : Grown k.role k.machine k.role
        { k.machine with natives := k.machine.natives.push native } :=
      receivers.grown_of_frames rfl rfl rfl rfl (k.machine.extends_push native).natives
    refine ⟨⟨k.role, { k.machine with natives := k.machine.natives.push native }⟩, hgrown,
      ⟨rfl, hm.size, hm.current, hm.globals, fun hv => ?_,
      fun horigin => ?_, fun other hother => ?_⟩, trivial⟩
    · exact (hm.values (hv.congr rfl rfl)).mono hgrown
    · exact (hm.frames horigin).mono hgrown
    · rcases Array.mem_push.1 hother with hold | rfl
      · exact hm.natives other hold
      · exact hnative
  · have hglobals : (Machine.bare world).IsScope 0 := ⟨.globals, rfl, trivial⟩
    refine ⟨rfl, hglobals, hglobals, fun hv => (Machine.not_holds_bare world _ hv).elim,
      fun {frame origin} horigin => ?_, by simp [Machine.bare]⟩
    have horigins : (Machine.bare world).origins = #[.globals] := rfl
    rw [horigins] at horigin
    have hmem := Array.mem_of_getElem? horigin
    rw [Array.mem_singleton.1 hmem]
    trivial

end Account

namespace Session

open Account

/-- In a session that reads text, wherever code runs, functions are no methods of tables and methods
are for receivers of one kind. A method is only bound to a receiver that has it, which makes the
frame of the bound copy; the body of a bound copy runs where `this` is that receiver; and what is
called is no method of a table. -/
theorem methods_run_on_their_receivers (natives : List Native)
    (hnatives : ∀ native ∈ natives, native.Honest) (world : World) (inputs : List Input)
    (fuel : Nat) :
    (∀ stop, sequence (feed (overseenEvaluators receiverOversight stop fuel)) inputs
      (start natives world) =
        sequence (feed (evaluators fuel)) inputs (start natives world)) ∧
      (sequence (feed (evaluators fuel)) inputs (start natives world)).2.machine.Apart [] ∧
      ∀ (m : Machine) (method : Closure) (v : Value),
        bindReceiver method v m =
        .ok { method with id := m.nextId, frame := m.frames.size } (m.addReceiver method v) := by
  have hstart := receivers_fit_start hnatives world
  have hwatched :=
    (sequence_watched hnatives world inputs (follows_memberWatch (accepted 0 inputs)) fuel).1
  have hfeed := fun stop =>
    feed_overseen lawful_receivers shows_receiverOversight (handles_receivers stop) fuel inputs
    (s := start natives world) hstart
  simp only [hwatched] at hfeed
  refine ⟨fun stop => (hfeed stop).1, ?_, bindReceiver_eq⟩
  obtain ⟨-, k, hfits⟩ := hfeed .outOfFuel
  exact hfits.2.apart (by simp)

/-- Methods that run by construction, by a call, by reading a getter and through `super`, on an
instance and on a class. -/
def receivingInputs : List Input :=
  [.program (Utf8.encode
      ("class A \x7b init() \x7b this.x = true; \x7d m() \x7b return this.x; \x7d " ++
        "g \x7b return this.x; \x7d class k() \x7b return this; \x7d \x7d " ++
        "class B < A \x7b m() \x7b return super.m(); \x7d " ++
        "class k() \x7b return super.k(); \x7d \x7d var f = B().m;")),
    .line (Utf8.encode "f()"), .line (Utf8.encode "B().g"), .line (Utf8.encode "B.k() == B")]

theorem methods_run_on_their_receivers_bound :
    (∀ native ∈ Native.standard, native.Honest) ∧
      (sequence (feed (evaluators 20)) receivingInputs (start Native.standard {})).1.map
      (·.output) = ["", "true\n", "true\n", "true\n"] ∧
      (∀ stop, sequence (feed (overseenEvaluators receiverOversight stop 20)) receivingInputs
          (start Native.standard {}) =
        sequence (feed (evaluators 20)) receivingInputs (start Native.standard {})) ∧
      (sequence (feed (evaluators 20)) receivingInputs (start Native.standard {})).2.machine.Apart
        [] := by
  obtain ⟨hoverseen, hapart, -⟩ :=
    methods_run_on_their_receivers Native.standard Native.honest_standard {} receivingInputs 20
  exact ⟨Native.honest_standard, by decide +kernel, hoverseen, hapart⟩

end Session
end TraitScript
