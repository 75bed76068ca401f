import TraitScript.Proofs.Account.Newcomers
import TraitScript.Proofs.Session.Receivers

/-!
# Construction and initializers

In a session that reads text nothing rebinds `this` in the frame of a bound method or `super` in the
frame of a superclass. What a call of a bound initializer returns is read back from the frame of its
receiver, so it is the receiver, however the body has ended; and a class that is called returns the
new instance whatever its initializer does.

The names `this` and `super` are what has to be known of programs that were read from text; which
methods are initializers and which objects are new is known of any run.
-/

namespace TraitScript

open Eval

/-! ### Frames that keep what they bind -/

/-- Every frame is known by what it was made for, and those made for receivers and superclasses bind
these. -/
structure Machine.Bound (m : Machine) : Prop where
  size : m.origins.size = m.frames.size
  receivers : m.BindsReceivers
  superclasses : ∀ {frame : FrameId} {declaration : Stmt} {definition : Class}, m.origins[frame]? =
      some (.superclass declaration definition) →
    m.frames.read frame "super" = .ok (.classValue definition)

/-- Frames stay what they are from one machine to another, and bind what they have to in both. -/
structure Machine.StaysBound (m m' : Machine) : Prop where
  before : m.Bound
  after : m'.Bound
  origins : ∀ {frame : FrameId} {origin : Origin}, m.origins[frame]? = some origin →
      m'.origins[frame]? = some origin

/-- The copy of a method that is bound to a receiver, and called in the machine where it was bound,
returns nothing else. -/
def Machine.Returns (m : Machine) (bound : Closure) (arguments : List Value) (receiver : Value) :
    Prop :=
  ∀ fuel w m', callClosure (evaluators fuel) bound arguments m = .ok w m' → w = receiver

/-- The copy of a method that is bound next. -/
def Machine.nextBound (m : Machine) (method : Closure) : Closure :=
  { method with id := m.nextId, frame := m.frames.size }

/-- The machine with one more object. -/
def Machine.withObject (m : Machine) : Machine := { m with fields := m.fields.push ∅ }

/-- Frames keep what they bind. Initializers are only called with a frame that was made for a
receiver, and return the receiver; in the same way getters do that are initializers, and the
initializers of new instances. Calling a class returns the new instance. -/
def initializerOversight : Oversight where
  evaluate _ m result := m.StaysBound result.machine
  execute _ m result := m.StaysBound result.machine
  executeBlock _ _ m result := m.StaysBound result.machine
  executeTop _ m result := m.StaysBound result.machine
  invoke callee _ arguments m result := m.StaysBound result.machine ∧
    (∀ closure, callee = .function closure → closure.isInitializer = true →
      ∃ decl v, m.origins[closure.frame]? = some (.receiver decl v) ∧
        ∀ w m', result = .ok w m' → w = v) ∧
    ∀ definition, callee = .classValue definition →
      (∀ w m', result = .ok w m' → w = .object ⟨m.fields.size, definition⟩) ∧
        ∀ init, definition.initializer? = some init → init.isInitializer = true →
          (m.withObject.addReceiver init (.object ⟨m.fields.size, definition⟩)).Returns
          (m.nextBound init) arguments
            (.object ⟨m.fields.size, definition⟩)
  bind method v m :=
    (m.addReceiver method v).origins[(m.nextBound method).frame]? = some (.receiver method.decl v) ∧
    (method.isInitializer = true → (m.addReceiver method v).Returns (m.nextBound method) [] v)

namespace Eval

variable {m m' : Machine} {self : Evaluators}

/-- What an initializer returns is what its frame binds to `this`. -/
theorem read_of_callClosure {closure : Closure} (hinitializer : closure.isInitializer = true)
    {arguments : List Value} {w : Value} (h : callClosure self closure arguments m = .ok w m') :
    m'.frames.read closure.frame "this" = .ok w := by
  obtain ⟨frame, m₁, -, h⟩ := bind_eq_ok.1 h
  obtain ⟨-, m₂, -, h⟩ := bind_eq_ok.1 h
  obtain ⟨flow, m₃, -, h⟩ := bind_eq_ok.1 h
  simp only [callResult, hinitializer, if_true] at h
  obtain ⟨found, m₄, hread, h⟩ := bind_eq_ok.1 h
  have hfound : found = m₃.frames.read closure.frame "this" ∧ m₄ = m₃ := by
    cases hread
    exact ⟨rfl, rfl⟩
  cases found with
  | error error => cases h
  | ok receiver =>
      cases h
      rw [hfound.2]
      exact hfound.1.symm

/-- Calling a class returns the new instance, whatever its initializer does. -/
theorem eq_of_invokeStep_classValue {definition : Class} {line : Nat} {arguments : List Value}
    {w : Value} (h : invokeStep self (.classValue definition) line arguments m = .ok w m') :
    w = .object ⟨m.fields.size, definition⟩ := by
  obtain ⟨⟨⟩, m₁, harity, h⟩ := bind_eq_ok.1 h
  have hm₁ : m₁ = m := by
    unfold checkArity at harity
    split at harity <;> cases harity
    rfl
  rw [hm₁] at h
  obtain ⟨id, m₂, hnew, h⟩ := bind_eq_ok.1 h
  obtain ⟨rfl, rfl⟩ : id = m.fields.size ∧ m₂ = m.withObject := by
    cases hnew
    exact ⟨rfl, rfl⟩
  cases hinit : definition.initializer? with
  | none =>
      rw [hinit] at h
      cases h
      rfl
  | some init =>
      rw [hinit] at h
      obtain ⟨bound, m₃, -, h⟩ := bind_eq_ok.1 h
      obtain ⟨_, m₄, -, h⟩ := bind_eq_ok.1 h
      cases h
      rfl

end Eval

section Text

variable {R : Regime} {sites : List Site} {m m' : Machine}

theorem Regime.Sound.bound (htext : R.fromText) (h : R.Sound m) : m.Bound :=
  ⟨h.size, fun horigin => read_of_find? (h.receivers htext horigin), fun horigin =>
    read_of_find? (h.superclasses htext horigin)⟩

theorem Eval.Ends.staysBound {α : Type} {Q : α → Machine → Prop} {result : Eval.Result α}
    (htext : R.fromText) (hsound : R.Sound m) (h : Ends R sites m Q result) :
    m.StaysBound result.machine := by
  cases result with
  | ok _ m' | error _ m' => exact ⟨hsound.bound htext, h.2.1.bound htext, h.1.origins⟩

/-- The frame of a receiver still binds it later on. -/
theorem Machine.Extends.read_receiver (htext : R.fromText) (hext : m.Extends m')
    (hsound : R.Sound m') {frame : FrameId} {decl : FunctionDecl} {v : Value}
    (horigin : m.origins[frame]? = some (.receiver decl v)) : m'.frames.read frame "this" = .ok v :=
  read_of_find? (hsound.receivers htext (hext.origins horigin))

theorem Closure.Bound.returns (htext : R.fromText) {bound : Closure} (hbound : bound.Bound R m)
    (hinitializer : bound.isInitializer = true) {decl : FunctionDecl} {v : Value}
    (horigin : m.origins[bound.frame]? = some (.receiver decl v)) {arguments : List Value}
    (harguments : ∀ a ∈ arguments, a.Sound R m) (hsound : R.Sound m)
    (hlinked : m.Linked m.current sites) : m.Returns bound arguments v := by
  intro fuel w m' hcall
  have hrelated := related_evaluators (follows_nothing R) .outOfFuel fuel
  obtain ⟨-, hends⟩ := holds_callClosure hrelated hbound harguments hsound hlinked
  rw [hcall] at hends
  have hread := hends.1.read_receiver htext hends.2.1 horigin
  exact Except.ok.inj ((read_of_callClosure hinitializer hcall).symm.trans hread)

theorem addReceiver_origin (hsize : m.origins.size = m.frames.size) (method : Closure) (v : Value) :
    (m.addReceiver method v).origins[(m.nextBound method).frame]? =
      some (.receiver method.decl v) :=
  m.origin_addFrame hsize (.receiver method.decl v)
    ⟨(∅ : Table (Option Value)).insert "this" (some v), some method.frame⟩

/-- A method that is bound to a receiver, and called at once. -/
theorem Closure.Member.returns (htext : R.fromText) {method : Closure} {v : Value}
    (hmethod : method.Member R m v.receiverKind) (hv : v.Sound R m)
    (hinitializer : method.isInitializer = true) {arguments : List Value}
    (harguments : ∀ a ∈ arguments, a.Sound R m) (hsound : R.Sound m)
    (hlinked : m.Linked m.current sites) :
    (m.addReceiver method v).Returns (m.nextBound method) arguments v := by
  obtain ⟨-, hends⟩ := holds_bindReceiver hmethod hv rfl hsound hlinked
  rw [bindReceiver_eq] at hends
  obtain ⟨hext, hsound', hlinked', hbound⟩ := hends
  exact hbound.returns htext hinitializer (addReceiver_origin hsound.size method v)
    (fun a ha => (harguments a ha).mono (.refl R) hext)
    hsound' hlinked'

/-- The initializer of a class, bound to a new instance and called at once. -/
theorem Class.Sound.returns (htext : R.fromText) {definition : Class}
    (hclass : definition.Sound R m) {init : Closure} (hinit : definition.initializer? = some init)
    (hinitializer : init.isInitializer = true) {arguments : List Value}
    (harguments : ∀ a ∈ arguments, a.Sound R m) (hsound : R.Sound m)
    (hlinked : m.Linked m.current sites) :
    (m.withObject.addReceiver init (.object ⟨m.fields.size, definition⟩)).Returns
      (m.nextBound init) arguments
      (.object ⟨m.fields.size, definition⟩) := by
  have hext : m.Extends m.withObject := ⟨rfl, fun ho => ho, fun he => he, fun hn => hn⟩
  have hmember : init.Member R m.withObject .ofInstance :=
    (hclass.mono (.refl R) hext).findMethod hinit
  have hinst : (Value.object ⟨m.fields.size, definition⟩).Sound R m.withObject :=
    hclass.mono (.refl R) hext
  exact hmember.returns htext hinst hinitializer (fun a ha => (harguments a ha).mono (.refl R) hext)
    hsound.newHolder (hlinked.mono hext)

theorem obeys_initializerOversight (htext : R.fromText) : Obeys R initializerOversight where
  evaluate _ hsound _ _ hends := hends.staysBound htext hsound
  execute _ hsound _ _ hends := hends.staysBound htext hsound
  executeBlock _ _ hsound _ _ hends := hends.staysBound htext hsound
  executeTop _ _ hsound _ _ hends := hends.staysBound htext hsound
  invoke {_ fuel _ _ _ m} hcallee harguments hsound hlinked hends := by
    refine ⟨hends.staysBound htext hsound, ?_, ?_⟩
    · rintro closure rfl hinitializer
      obtain ⟨decl, v, horigin⟩ := Closure.Bound.receiver hcallee hinitializer
      refine ⟨decl, v, horigin, fun w m' hresult => ?_⟩
      cases fuel with
      | zero => cases hresult
      | succ fuel =>
          obtain ⟨-, m₁, harity, hcall⟩ :=
            bind_eq_ok.1 (show invokeStep _ (.function closure) _ _ m = _ from hresult)
          rw [hresult] at hends
          have hread := hends.1.read_receiver htext hends.2.1 horigin
          exact Except.ok.inj ((read_of_callClosure hinitializer hcall).symm.trans hread)
    · rintro definition rfl
      refine ⟨fun w m' hresult => ?_, fun init hinit hinitializer =>
        Class.Sound.returns htext hcallee hinit hinitializer harguments hsound hlinked⟩
      cases fuel with
      | zero => cases hresult
      | succ fuel =>
        exact eq_of_invokeStep_classValue
          (show invokeStep _ (.classValue definition) _ _ m = _ from hresult)
  bind {_ method v m} hmethod hv hsound hlinked :=
    ⟨addReceiver_origin hsound.size method v, fun hinitializer =>
      hmethod.returns htext hv hinitializer (by simp) hsound hlinked⟩

end Text

/-! ### New objects and marks -/

/-- No value in use is an object that is still to come, and what classes answer with is marked as an
initializer by its name. -/
def Machine.Ready (m : Machine) (given : List Value) : Prop :=
  ∀ v, m.Knows given v → v.Marked ∧ ∀ id, v.holder? = some id → id < m.fields.size

/-- Instances that are made are new, and the methods that are bound to instances as initializers are
those of that name. -/
def newcomerOversight : Oversight where
  evaluate _ m _ := m.Ready []
  execute _ m _ := m.Ready []
  executeBlock _ _ m _ := m.Ready []
  executeTop _ m _ := m.Ready []
  invoke callee _ arguments m _ := m.Ready (callee :: arguments)
  bind method v m :=
    m.Ready [v] ∧ method.isInitializer = v.receiverKind.isInitializer method.decl.key

namespace Account

theorem ready_of_fits {k : newcomers.Known} {m : Machine} (hfits : newcomers.fits k m)
    {given : List Value} (hgiven : ∀ v ∈ given, newcomers.admits k v) : m.Ready given := by
  obtain ⟨rfl, hm⟩ := hfits
  intro v hv
  have hbelow : v.MarkedBelow m.fields.size := hv.elim hm.values (hgiven v)
  exact ⟨hbelow.marked, fun _ hid => hbelow.holder hid⟩

theorem shows_newcomerOversight : newcomers.Shows {} newcomerOversight where
  evaluate_assumed _ := trivial
  execute_assumed _ := trivial
  executeBlock_assumed _ := trivial
  executeTop_assumed _ := trivial
  evaluate _ hfits _ := ready_of_fits hfits (by simp)
  execute _ hfits _ := ready_of_fits hfits (by simp)
  executeBlock _ hfits _ _ := ready_of_fits hfits (by simp)
  executeTop _ hfits _ := ready_of_fits hfits (by simp)
  invoke hfits hcallee harguments _ :=
    ready_of_fits hfits (List.forall_mem_cons.2 ⟨hcallee, harguments⟩)
  binds hfits hv hreceives := ⟨ready_of_fits hfits (List.forall_mem_singleton.2 hv), hreceives⟩

end Account

namespace Session

open Account

/-- In a session that reads text the frames of receivers and superclasses always bind what they were
made for, and every call of a bound initializer that succeeds returns the receiver. Wherever code
runs methods are marked as initializers by their name. In any machine at all a call of a class fails
or returns an instance of the class, and where code runs in the session and at its end no value is
that instance yet. -/
theorem initializers_yield_receivers (natives : List Native)
    (hnatives : ∀ native ∈ natives, native.Honest) (world : World) (inputs : List Input)
    (fuel : Nat) :
    (∀ stop, sequence (feed (overseenEvaluators initializerOversight stop fuel)) inputs
      (start natives world) =
        sequence (feed (evaluators fuel)) inputs (start natives world)) ∧
      (∀ stop, sequence (feed (overseenEvaluators newcomerOversight stop fuel)) inputs
        (start natives world) =
        sequence (feed (evaluators fuel)) inputs (start natives world)) ∧
      (sequence (feed (evaluators fuel)) inputs (start natives world)).2.machine.Bound ∧
      (sequence (feed (evaluators fuel)) inputs (start natives world)).2.machine.Ready [] ∧
      (∀ (m : Machine) (bound : Nat) (definition : Class) (line : Nat) (arguments : List Value),
        match invoke bound (.classValue definition) line arguments m with
        | .ok w _ => w = .object ⟨m.fields.size, definition⟩
        | .error _ _ => True) ∧
      ∀ (m : Machine) (method : Closure) (v : Value), bindReceiver method v m =
        .ok (m.nextBound method) (m.addReceiver method v) := by
  have hstart := newcomers_fit_start hnatives world
  have halike : ∀ stop, RunsAllAlike (accepted 0 inputs) fuel
      (overseenEvaluators initializerOversight stop fuel) := fun stop done distances _ =>
    runsAlike_overseen (obeys_initializerOversight trivial) stop fuel
  have hfeed := fun stop =>
    feed_overseen lawful_newcomers shows_newcomerOversight (handles_newcomers stop) fuel inputs
    (s := Session.start natives world) hstart
  simp only [watchedEvaluators_nothing] at hfeed
  refine ⟨fun stop => (sequence_alike hnatives world inputs (halike stop)).1,
    fun stop => (hfeed stop).1, ?_, ?_, ?_, bindReceiver_eq⟩
  · obtain ⟨-, -, done, distances, hreading⟩ :=
      sequence_alike hnatives world inputs (halike .outOfFuel)
    exact hreading.sound.machine.bound trivial
  · obtain ⟨-, k, hfits⟩ := hfeed .outOfFuel
    exact ready_of_fits hfits (by simp)
  · intro m bound definition line arguments
    cases hresult : invoke bound (.classValue definition) line arguments m with
    | error stop m' => trivial
    | ok w m' =>
        cases bound with
        | zero => cases hresult
        | succ bound =>
          exact eq_of_invokeStep_classValue
            (show invokeStep _ (.classValue definition) _ _ m = _ from hresult)

/-- Initializers that leave loops and blocks with a bare return, one of the class, one of a
superclass, one of a trait and one that is a getter. -/
def constructingInputs : List Input :=
  [.program (Utf8.encode
      ("class A { init(x) { this.x = x; for (;;) { while (x) { return; } } } } " ++
        "class B < A { init(x) { this.same = super.init(x) == this; } } class C < B {} " ++
        "trait T { init() { return; } } class D { use T; } class G { init { return; } } " ++
        "var a = A(true); var b = C(true); var d = D(); var g = G();")),
    .line (Utf8.encode "a.init(true) == a"), .line (Utf8.encode "b.same"),
    .line (Utf8.encode "d.init() == d"), .line (Utf8.encode "g.init == g"),
    .line (Utf8.encode "b"), .line (Utf8.encode "d")]

theorem initializers_yield_receivers_returning :
    (∀ native ∈ Native.standard, native.Honest) ∧
      (sequence (feed (evaluators 20)) constructingInputs (start Native.standard {})).1.map
      (·.output) =
        ["", "true\n", "true\n", "true\n", "true\n", "<instance C>\n", "<instance D>\n"] ∧
      (∀ stop, sequence (feed (overseenEvaluators initializerOversight stop 20)) constructingInputs
          (start Native.standard {}) =
        sequence (feed (evaluators 20)) constructingInputs (start Native.standard {})) ∧
      (sequence (feed (evaluators 20)) constructingInputs
        (start Native.standard {})).2.machine.Bound := by
  obtain ⟨hoverseen, -, hbound, -⟩ :=
    initializers_yield_receivers Native.standard Native.honest_standard {} constructingInputs 20
  exact ⟨Native.honest_standard, by decide +kernel, hoverseen, hbound⟩

end Session
end TraitScript
