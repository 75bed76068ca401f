import TraitScript.Proofs.Eval.Regime
import TraitScript.Proofs.Eval.Watch

/-!
# Keeping account of a run

An account says what can be known of a machine, which values may occur in it and in which frames
code may run. What is known only grows. An account is lawful when every primitive of the machine can
be accounted for; that is asked of each primitive alone, and is all that has to be shown about an
account apart from how it deals with declarations of classes and traits and with `super`.

`Keeps` compares a computation with its watched version, started in a machine that the account fits.
Both do the same, however they end the account fits again, and code goes on in the frame it started
in. No program has to be resolved for this, and no tree has to come from text.
-/

namespace TraitScript

/-- What is known of machines in the course of a run. -/
structure Account where
  Known : Type
  /-- More is known later. -/
  le : Known → Known → Prop
  fits : Known → Machine → Prop
  /-- Values that may occur. -/
  admits : Known → Value → Prop
  /-- Frames in which code may run. -/
  scope : Known → FrameId → Prop
  /-- Methods that may be bound to a receiver. -/
  receives : Known → Value → Closure → Prop

/-- Frames that are made for statements. -/
def Origin.OfStatement : Origin → Prop
  | .block _ | .loop _ => True
  | _ => False

/-- The machine after a method was bound to a receiver. -/
def Machine.addReceiver (m : Machine) (method : Closure) (receiver : Value) : Machine :=
  { m.addFrame (.receiver method.decl receiver)
      ⟨(∅ : Table (Option Value)).insert "this" (some receiver), some method.frame⟩ with
    nextId := m.nextId + 1 }

/-- Binding a method adds its frame. -/
theorem Eval.bindReceiver_eq (m : Machine) (method : Closure) (v : Value) :
    bindReceiver method v m =
      .ok { method with id := m.nextId, frame := m.frames.size } (m.addReceiver method v) := by
  have hframes := FrameStore.bind_addEmpty m.frames (some method.frame) "this" (some v)
  show EStateM.Result.ok _
    ({ m with frames := (m.frames.addEmpty _).bind _ _ _, origins := _, nextId := _ } : Machine) = _
  rw [hframes]
  rfl

/-- The machine that goes on in a copy of its current frame. -/
def Machine.nextRound (m : Machine) : Machine :=
  { m.addFrame (m.origins[m.current]?.getD .globals)
      ⟨m.frames.slots m.current, m.frames.enclosing? m.current⟩ with
    current := m.frames.size }

namespace Account

/-- A later machine fits, with more that is known of it. -/
def Later (I : Account) (k : I.Known) (m : Machine) (P : I.Known → Prop) : Prop :=
  ∃ k', I.le k k' ∧ I.fits k' m ∧ P k'

/-- Every primitive of a machine can be accounted for. -/
structure Lawful (I : Account) : Prop where
  refl : ∀ k, I.le k k
  trans : ∀ {k k' k''}, I.le k k' → I.le k' k'' → I.le k k''
  admits_mono : ∀ {k k' v}, I.le k k' → I.admits k v → I.admits k' v
  scope_mono : ∀ {k k' frame}, I.le k k' → I.scope k frame → I.scope k' frame
  plain : ∀ {k v}, v.IsPlain → I.admits k v
  native : ∀ {k ref}, I.admits k (.native ref)
  slots : ∀ {k m frame name v}, I.fits k m →
      (m.frames.slots frame).find? name = some (some v) → I.admits k v
  fields : ∀ {k m name v} {holder : Nat} {table : Table Value}, I.fits k m →
      m.fields[holder]? = some table → table.find? name = some v → I.admits k v
  /-- Native functions make up no values of their own, unless all values may occur. -/
  natives : ∀ {k m}, I.fits k m → ∀ native ∈ m.natives, native.Honest ∨ ∀ k v, I.admits k v
  current : ∀ {k m}, I.fits k m → I.scope k m.current
  globals : ∀ {k m}, I.fits k m → I.scope k m.globals
  enter : ∀ {k m frame}, I.fits k m → I.scope k frame →
      I.Later k { m with current := frame } fun _ => True
  aside : ∀ {k m} output world distances, I.fits k m →
    I.Later k { m with output := output, world := world, distances := distances } fun _ => True
  bind : ∀ {k m frame name value}, I.fits k m → (∀ v, value = some v → I.admits k v) →
    I.Later k { m with frames := m.frames.bind frame name value } fun _ => True
  setField : ∀ {k m holder name v}, I.fits k m → I.admits k v →
    I.Later k { m with fields := m.fields.modify holder (·.insert name v) } fun _ => True
  statement : ∀ {k m origin around}, I.fits k m → origin.OfStatement → I.scope k around →
    I.Later k (m.addFrame origin ⟨∅, some around⟩) fun k' => I.scope k' m.frames.size
  call : ∀ {k m closure}, I.fits k m → I.admits k (.function closure) →
    I.Later k (m.addFrame (.call closure.decl) ⟨∅, some closure.frame⟩) fun k' =>
    I.scope k' m.frames.size
  nextRound : ∀ {k m}, I.fits k m → I.Later k m.nextRound fun _ => True
  function : ∀ {k m} decl, I.fits k m →
    I.Later k { m with nextId := m.nextId + 1 } fun k' =>
    I.admits k' (.function ⟨m.nextId, decl, m.current, false⟩)
  inst : ∀ {k m definition}, I.fits k m → I.admits k (.classValue definition) →
    I.Later k { m with fields := m.fields.push ∅ } fun k' =>
    I.admits k' (.object ⟨m.fields.size, definition⟩)
  finds : ∀ {k v name method}, I.admits k v → v.findMethod name = some method →
      I.receives k v method
  receiver : ∀ {k m v method}, I.fits k m → I.admits k v → I.receives k v method →
    I.Later k (m.addReceiver method v) fun k' =>
    I.admits k' (.function { method with id := m.nextId, frame := m.frames.size })

variable {I : Account} {stays : Prop} {k : I.Known} {m : Machine} {α β : Type}

theorem Later.mono {P P' : I.Known → Prop} (h : I.Later k m P)
    (himp : ∀ k', I.le k k' → I.fits k' m → P k' → P' k') : I.Later k m P' := by
  obtain ⟨k', hle, hfits, hP⟩ := h
  exact ⟨k', hle, hfits, himp k' hle hfits hP⟩

/-- How a computation ends: the account fits, and code goes on in the same frame. -/
def Ends (I : Account) (stays : Prop) (k : I.Known) (m : Machine)
    (Q : α → I.Known → Machine → Prop) : Eval.Result α → Prop
  | .ok a m' => (stays → m'.current = m.current) ∧ I.Later k m' fun k' => Q a k' m'
  | .error _ m' => (stays → m'.current = m.current) ∧ I.Later k m' fun _ => True

/-- A computation and its watched version agree and end well. -/
def Keeps (I : Account) (stays : Prop) (k : I.Known) (x y : Eval α)
    (Q : α → I.Known → Machine → Prop) (m : Machine) : Prop :=
  I.fits k m → y m = x m ∧ I.Ends stays k m Q (x m)

/-! ### Rules -/

section Rules

variable {x y : Eval α} {Q Q' : α → I.Known → Machine → Prop}

theorem Keeps.mono (h : I.Keeps stays k x y Q m)
    (himp : ∀ a k' m', I.le k k' → I.fits k' m' → Q a k' m' → Q' a k' m') :
    I.Keeps stays k x y Q' m := by
  intro hfits
  obtain ⟨heq, hends⟩ := h hfits
  refine ⟨heq, ?_⟩
  cases hresult : x m with
  | ok a m' =>
      rw [hresult] at hends
      exact ⟨hends.1, hends.2.mono fun k' hle hfits' hQ => himp a k' m' hle hfits' hQ⟩
  | error stop m' =>
      rw [hresult] at hends
      exact hends

/-- What is known of a result includes how it was reached. -/
theorem Keeps.traced (h : I.Keeps stays k x y Q m) :
    I.Keeps stays k x y (fun a k' m' => Q a k' m' ∧ x m = .ok a m') m := by
  intro hfits
  obtain ⟨heq, hends⟩ := h hfits
  refine ⟨heq, ?_⟩
  cases hresult : x m with
  | ok a m' =>
      rw [hresult] at hends
      exact ⟨hends.1, hends.2.mono fun _ _ _ hQ => ⟨hQ, rfl⟩⟩
  | error stop m' =>
      rw [hresult] at hends
      exact hends

/-- Whether code goes on in the same frame may be left open. -/
theorem Keeps.loose (h : I.Keeps True k x y Q m) : I.Keeps stays k x y Q m := by
  intro hfits
  obtain ⟨heq, hends⟩ := h hfits
  refine ⟨heq, ?_⟩
  cases hresult : x m with
  | ok a m' | error stop m' =>
      rw [hresult] at hends
      exact ⟨fun _ => hends.1 trivial, hends.2⟩

theorem Keeps.bind (hI : I.Lawful) {f g : α → Eval β} {Q' : β → I.Known → Machine → Prop}
    (hx : I.Keeps stays k x y Q m)
    (hf : ∀ a k' m', I.le k k' → (stays → m'.current = m.current) → Q a k' m' →
      I.Keeps stays k' (f a) (g a) Q' m') :
    I.Keeps stays k (x >>= f) (y >>= g) Q' m := by
  intro hfits
  obtain ⟨heq, hends⟩ := hx hfits
  simp only [Bind.bind, EStateM.bind, heq]
  cases hresult : x m with
  | ok a m' =>
      rw [hresult] at hends
      obtain ⟨hcurrent, k', hle, hfits', ha⟩ := hends
      obtain ⟨heq', hends'⟩ := hf a k' m' hle hcurrent ha hfits'
      refine ⟨heq', ?_⟩
      show I.Ends stays k m Q' (f a m')
      cases hnext : f a m' with
      | ok b m'' | error stop m'' =>
          rw [hnext] at hends'
          obtain ⟨hcurrent', k'', hle', hlast⟩ := hends'
          exact ⟨fun hs => (hcurrent' hs).trans (hcurrent hs), k'', hI.trans hle hle', hlast⟩
  | error stop m' =>
      rw [hresult] at hends
      exact ⟨rfl, hends⟩

theorem keeps_pure (hI : I.Lawful) (a : α) (h : Q a k m) : I.Keeps stays k (pure a) (pure a) Q m :=
  fun hfits => ⟨rfl, fun _ => rfl, k, hI.refl k, hfits, h⟩

theorem keeps_throw (hI : I.Lawful) (stop : Stop) :
    I.Keeps stays k (throw stop : Eval α) (throw stop) Q m :=
  fun hfits => ⟨rfl, fun _ => rfl, k, hI.refl k, hfits, trivial⟩

theorem keeps_raise (hI : I.Lawful) (line : Option Nat) (cause : RuntimeError.Cause) :
    I.Keeps stays k (Eval.raise line cause : Eval α) (Eval.raise line cause) Q m :=
  keeps_throw hI _

/-- A computation that ends at once in another machine. -/
theorem keeps_of_ok {x : Eval α} (a : α) (m' : Machine) (hx : x m = .ok a m')
    (hcurrent : stays → m'.current = m.current)
    (h : I.fits k m → I.Later k m' fun k' => Q a k' m') : I.Keeps stays k x x Q m := by
  intro hfits
  rw [hx]
  exact ⟨rfl, hcurrent, h hfits⟩

/-- Reading leaves the machine as it is. -/
theorem keeps_of_read (hI : I.Lawful) {x : Eval α} (a : α) (hx : x m = .ok a m)
    (h : I.fits k m → Q a k m) : I.Keeps stays k x x Q m :=
  keeps_of_ok a m hx (fun _ => rfl) fun hfits => ⟨k, hI.refl k, hfits, h hfits⟩

/-- Whatever happens in another frame, code goes on in the one it came from. -/
theorem Keeps.inFrame (hI : I.Lawful) {frame : FrameId} {P : α → I.Known → Prop}
    (hP : ∀ {a k k'}, I.le k k' → P a k → P a k') (hscope : I.scope k frame)
    (hx : ∀ k', I.le k k' →
      I.Keeps False k' x y (fun a k'' _ => P a k'') { m with current := frame }) :
    I.Keeps stays k (Eval.inFrame frame x) (Eval.inFrame frame y) (fun a k' _ => P a k') m := by
  intro hfits
  obtain ⟨k₁, hle₁, hfits₁, -⟩ := hI.enter hfits hscope
  obtain ⟨heq, hends⟩ := hx k₁ hle₁ hfits₁
  simp only [Eval.inFrame, heq]
  cases hresult : x { m with current := frame } with
  | ok a m' =>
      rw [hresult] at hends
      obtain ⟨-, k₂, hle₂, hfits₂, ha⟩ := hends
      have hle := hI.trans hle₁ hle₂
      obtain ⟨k₃, hle₃, hfits₃, -⟩ := hI.enter hfits₂ (hI.scope_mono hle (hI.current hfits))
      exact ⟨trivial, fun _ => rfl, k₃, hI.trans hle hle₃, hfits₃, hP hle₃ ha⟩
  | error stop m' =>
      rw [hresult] at hends
      obtain ⟨-, k₂, hle₂, hfits₂, -⟩ := hends
      have hle := hI.trans hle₁ hle₂
      obtain ⟨k₃, hle₃, hfits₃, -⟩ := hI.enter hfits₂ (hI.scope_mono hle (hI.current hfits))
      exact ⟨trivial, fun _ => rfl, k₃, hI.trans hle hle₃, hfits₃, trivial⟩

/-- A computation that is watched for one condition, and the same watched for another. The first may
be assumed as long as it speaks of the machine before only; the second has to follow from it. -/
theorem Keeps.watched (hI : I.Lawful) {condition condition' : Machine → Eval.Result α → Prop}
    (hx : condition m (x m) → I.Keeps stays k x y Q m)
    (himplies : ∀ result result', condition' m result → condition m result')
    (hcondition : I.fits k m → ∀ result, condition m result → I.Ends stays k m Q result →
      condition' m result)
    (stop : Stop) :
    I.Keeps stays k (Eval.watched condition stop x) (Eval.watched condition' stop y) Q m := by
  intro hfits
  by_cases hholds : condition m (x m)
  · obtain ⟨heq, hends⟩ := hx hholds hfits
    rw [Eval.watched, Eval.watched, heq, if_pos hholds, if_pos (hcondition hfits _ hholds hends)]
    exact ⟨rfl, hends⟩
  · have hfails : ¬ condition' m (y m) := fun h => hholds (himplies _ _ h)
    rw [Eval.watched, Eval.watched, if_neg hholds, if_neg hfails]
    exact ⟨rfl, fun _ => rfl, k, hI.refl k, hfits, trivial⟩

end Rules

/-! ### Primitives -/

section Primitives

open Eval

variable (hI : I.Lawful)

include hI

theorem keeps_currentFrame :
    I.Keeps stays k currentFrame currentFrame
      (fun frame k' m' => I.scope k' frame ∧ frame = m'.current) m :=
  keeps_of_read hI m.current rfl fun hfits => ⟨hI.current hfits, rfl⟩

/-- A new frame for a block or a loop. -/
theorem keeps_newFrame {origin : Origin} (horigin : origin.OfStatement) {around : FrameId}
    (haround : I.scope k around) :
    I.Keeps stays k (newFrame origin around) (newFrame origin around)
      (fun frame k' _ => I.scope k' frame) m :=
  keeps_of_ok m.frames.size (m.addFrame origin ⟨∅, some around⟩) rfl (fun _ => rfl) fun hfits =>
    hI.statement hfits horigin haround

/-- A new frame for a call. -/
theorem keeps_callFrame {closure : Closure} (hclosure : I.admits k (.function closure)) :
    I.Keeps stays k (newFrame (.call closure.decl) closure.frame)
      (newFrame (.call closure.decl) closure.frame)
      (fun frame k' _ => I.scope k' frame) m :=
  keeps_of_ok m.frames.size (m.addFrame (.call closure.decl) ⟨∅, some closure.frame⟩) rfl
    (fun _ => rfl) fun hfits => hI.call hfits hclosure

theorem keeps_define {frame : FrameId} {name : String} {value : Value} (hvalue : I.admits k value) :
    I.Keeps stays k (define frame name value) (define frame name value) (fun _ _ _ => True) m :=
  keeps_of_ok () { m with frames := m.frames.define frame name value } rfl
    (fun _ => rfl) fun hfits =>
    hI.bind hfits fun _ hv => Option.some.inj hv ▸ hvalue

theorem keeps_declare {frame : FrameId} {name : String} :
    I.Keeps stays k (declare frame name) (declare frame name) (fun _ _ _ => True) m :=
  keeps_of_ok () { m with frames := m.frames.declare frame name } rfl (fun _ => rfl) fun hfits =>
    hI.bind hfits fun _ hv => nomatch hv

/-- Going on in a copy of the current frame is the one step that does not come back by itself. -/
theorem keeps_nextIteration : I.Keeps False k nextIteration nextIteration (fun _ _ _ => True) m :=
  keeps_of_ok () m.nextRound rfl False.elim fun hfits => hI.nextRound hfits

/-- Changes to what was written and to the outside world. -/
theorem keeps_aside {Q : α → I.Known → Machine → Prop} {x : Eval α} (a : α) (output : String)
    (world : World) (hx : x m = .ok a { m with output := output, world := world })
    (hQ : ∀ k' m', Q a k' m') : I.Keeps stays k x x Q m :=
  keeps_of_ok a { m with output := output, world := world } hx (fun _ => rfl) fun hfits =>
    (hI.aside output world m.distances hfits).mono fun _ _ _ _ => hQ _ _

theorem keeps_write (text : String) :
    I.Keeps stays k (write text) (write text) (fun _ _ _ => True) m :=
  keeps_aside hI () (m.output ++ text) m.world rfl fun _ _ => trivial

theorem keeps_readClock : I.Keeps stays k readClock readClock (fun _ _ _ => True) m :=
  keeps_aside hI _ m.output { m.world with clockReadings := m.world.clockReadings + 1 } rfl
    fun _ _ => trivial

theorem keeps_pick (low high : Int) :
    I.Keeps stays k (pick low high) (pick low high) (fun _ _ _ => True) m :=
  keeps_aside hI _ m.output { m.world with randomPicks := m.world.randomPicks + 1 } rfl
    fun _ _ => trivial

theorem keeps_readLine : I.Keeps stays k readLine readLine (fun _ _ _ => True) m := by
  intro hfits
  refine ⟨rfl, ?_⟩
  unfold readLine
  split
  · exact ⟨fun _ => rfl, k, hI.refl k, hfits, trivial⟩
  · have hafter :=
      hI.aside m.output { m.world with input := (splitLine m.world.input).2 } m.distances hfits
    dsimp only
    split
    · exact ⟨fun _ => rfl, hafter⟩
    · exact ⟨fun _ => rfl, hafter⟩

theorem keeps_field? (holder : Nat) (name : String) :
    I.Keeps stays k (field? holder name) (field? holder name)
      (fun found k' _ => ∀ v, found = some v → I.admits k' v) m := by
  refine keeps_of_read hI _ rfl fun hfits v hv => ?_
  obtain ⟨table, htable, hfind⟩ := Option.bind_eq_some_iff.1 hv
  exact hI.fields hfits htable hfind

theorem keeps_setField {holder : Nat} {name : String} {value : Value} (hvalue : I.admits k value) :
    I.Keeps stays k (setField holder name value) (setField holder name value)
      (fun _ _ _ => True) m :=
  keeps_of_ok () { m with fields := m.fields.modify holder (·.insert name value) } rfl
    (fun _ => rfl) fun hfits => hI.setField hfits hvalue

/-- A function made in the current frame. -/
theorem keeps_makeFunction (decl : FunctionDecl) :
    I.Keeps stays k (makeClosure decl m.current false) (makeClosure decl m.current false)
      (fun closure k' _ => I.admits k' (.function closure)) m :=
  keeps_of_ok _ { m with nextId := m.nextId + 1 } rfl (fun _ => rfl) fun hfits =>
    hI.function decl hfits

theorem keeps_bindReceiver {method : Closure} {v : Value} (hv : I.admits k v)
    (hreceives : I.receives k v method) :
    I.Keeps stays k (bindReceiver method v) (bindReceiver method v)
      (fun bound k' _ => I.admits k' (.function bound)) m :=
  keeps_of_ok _ _ (bindReceiver_eq m method v) (fun _ => rfl) fun hfits =>
    hI.receiver hfits hv hreceives

/-! ### Variables -/

theorem admits_of_read (hfits : I.fits k m) {frame : FrameId} {name : String} {v : Value}
    (h : m.frames.read frame name = .ok v) :
    I.admits k v := by
  unfold FrameStore.read at h
  split at h
  next hfind =>
    cases h
    exact hI.slots hfits hfind
  next => cases h
  next => cases h

theorem admits_of_getAt (hfits : I.fits k m) {frame : FrameId} {distance : Nat} {name : String}
    {v : Value} (h : m.frames.getAt frame distance name = .ok v) : I.admits k v := by
  unfold FrameStore.getAt at h
  cases hancestor : m.frames.ancestor frame distance with
  | error error =>
      rw [hancestor] at h
      cases h
  | ok holder =>
      rw [hancestor] at h
      exact admits_of_read hI hfits h

theorem admits_of_get (hfits : I.fits k m) {frame : FrameId} {name : String} {v : Value}
    (h : m.frames.get frame name = .ok v) :
    I.admits k v := by
  unfold FrameStore.get at h
  cases hlocate : m.frames.locate frame name with
  | error error =>
      rw [hlocate] at h
      cases h
  | ok holder =>
      rw [hlocate] at h
      exact admits_of_read hI hfits h

theorem keeps_readVariable (id : Nat) (name : Token) :
    I.Keeps stays k (readVariable id name) (readVariable id name)
      (fun v k' _ => I.admits k' v) m := by
  intro hfits
  refine ⟨rfl, ?_⟩
  have hstop : ∀ error : FrameError,
      I.Ends stays k m (fun (v : Value) k' _ => I.admits k' v)
      (.error (.ofFrameError (some name.line) error) m) :=
    fun _ => ⟨fun _ => rfl, k, hI.refl k, hfits, trivial⟩
  unfold readVariable
  cases m.distances[id]? with
  | some distance =>
      cases hresult : m.frames.getAt m.current distance name.lexeme with
      | ok v =>
        simpa only [hresult]
          using ⟨fun _ => rfl, k, hI.refl k, hfits, admits_of_getAt hI hfits hresult⟩
      | error error => simpa only [hresult] using hstop error
  | none =>
      cases hresult : m.frames.get m.globals name.lexeme with
      | ok v =>
        simpa only [hresult]
          using ⟨fun _ => rfl, k, hI.refl k, hfits, admits_of_get hI hfits hresult⟩
      | error error => simpa only [hresult] using hstop error

theorem keeps_writeVariable (id : Nat) (name : Token) {value : Value} (hvalue : I.admits k value) :
    I.Keeps stays k (writeVariable id name value) (writeVariable id name value)
      (fun _ _ _ => True) m := by
  intro hfits
  refine ⟨rfl, ?_⟩
  unfold writeVariable
  cases target m id name.lexeme with
  | ok frame => exact ⟨fun _ => rfl, hI.bind hfits fun _ hv => Option.some.inj hv ▸ hvalue⟩
  | error error => exact ⟨fun _ => rfl, k, hI.refl k, hfits, trivial⟩

theorem keeps_readAt (frame : FrameId) (distance : Nat) (name : String) :
    I.Keeps stays k (readAt frame distance name) (readAt frame distance name)
      (fun found k' _ => ∀ v, found = .ok v → I.admits k' v) m :=
  keeps_of_read hI _ rfl fun hfits _ hv => admits_of_getAt hI hfits hv

end Primitives

end Account
end TraitScript
