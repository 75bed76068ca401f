import TraitScript.Proofs.Eval.Regime
import TraitScript.Proofs.Eval.Watch

/-!
# Reasoning about steps

`Holds` compares a computation with its watched version, started in a sound machine whose current
frame is linked to given sites. Both do the same; if they end with a result, the machine is sound
again, its current frame is linked to the same sites, and the result satisfies what is claimed of
it; if they stop, the machine is sound and the stop is one that the regime permits.

One rule for each way of putting computations together, and one lemma for each primitive of the
machine.
-/

namespace TraitScript

/-- Stops that may happen: never a jump out of a function. In programs read from text there is no
fault at all, and only native functions fail with errors that have no line. -/
structure Regime.Permits (R : Regime) (stop : Stop) : Prop where
  noEscape : stop ≠ .fault .jumpEscaped
  noFault : R.fromText → ∀ fault, stop ≠ .fault fault
  blamed : R.fromText → ∀ error, stop = .error error → error.line = none → R.Blames error.cause

theorem Regime.permits_error {R : Regime} {error : RuntimeError}
    (h : R.fromText → error.line = none → R.Blames error.cause) :
    R.Permits (.error error) := by
  refine ⟨nofun, fun _ => nofun, fun htext other heq hline => ?_⟩
  cases heq
  exact h htext hline

theorem Regime.permits_outOfFuel (R : Regime) : R.Permits .outOfFuel :=
  ⟨nofun, fun _ => nofun, fun _ => nofun⟩

namespace Eval

variable {R : Regime} {sites inner : List Site} {m m' : Machine} {α β : Type}

/-- What is known of a computation at its end. -/
def Ends (R : Regime) (sites : List Site) (m : Machine) (Q : α → Machine → Prop) :
    Eval.Result α → Prop
  | .ok a m' => m.Extends m' ∧ R.Sound m' ∧ m'.Linked m'.current sites ∧ Q a m'
  | .error stop m' => m.Extends m' ∧ R.Sound m' ∧ R.Permits stop

/-- A computation and its watched version agree and end well. -/
def Holds (R : Regime) (sites : List Site) (x y : Eval α) (Q : α → Machine → Prop) (m : Machine) :
    Prop :=
  R.Sound m → m.Linked m.current sites → y m = x m ∧ Ends R sites m Q (x m)

/-! ### Rules -/

theorem Ends.of_extends {Q : α → Machine → Prop} {result : Eval.Result α} (hext : m.Extends m')
    (h : Ends R sites m' Q result) :
    Ends R sites m Q result := by
  cases result with
  | ok a m'' => exact ⟨hext.trans h.1, h.2⟩
  | error stop m'' => exact ⟨hext.trans h.1, h.2⟩

theorem Ends.mono {Q Q' : α → Machine → Prop} {result : Eval.Result α} (h : Ends R sites m Q result)
    (himp : ∀ a m', m.Extends m' → R.Sound m' → Q a m' → Q' a m') : Ends R sites m Q' result := by
  cases result with
  | ok a m' => exact ⟨h.1, h.2.1, h.2.2.1, himp a m' h.1 h.2.1 h.2.2.2⟩
  | error stop m' => exact h

theorem Holds.mono {x y : Eval α} {Q Q' : α → Machine → Prop} (h : Holds R sites x y Q m)
    (himp : ∀ a m', m.Extends m' → R.Sound m' → Q a m' → Q' a m') : Holds R sites x y Q' m := by
  intro hsound hlinked
  obtain ⟨heq, hends⟩ := h hsound hlinked
  exact ⟨heq, hends.mono himp⟩

theorem holds_pure {Q : α → Machine → Prop} (a : α) (h : R.Sound m → Q a m) :
    Holds R sites (pure a) (pure a) Q m :=
  fun hsound hlinked => ⟨rfl, .refl m, hsound, hlinked, h hsound⟩

theorem holds_throw {Q : α → Machine → Prop} {stop : Stop} (h : R.Permits stop) :
    Holds R sites (throw stop : Eval α) (throw stop) Q m :=
  fun hsound _ => ⟨rfl, .refl m, hsound, h⟩

theorem holds_raise? {Q : α → Machine → Prop} {line : Option Nat} {cause : RuntimeError.Cause}
    (h : R.fromText → line = none → R.Blames cause) :
    Holds R sites (raise line cause : Eval α) (raise line cause) Q m :=
  holds_throw (R.permits_error h)

/-- Errors at a line may always happen. -/
theorem holds_raise {Q : α → Machine → Prop} (line : Nat) (cause : RuntimeError.Cause) :
    Holds R sites (raise (some line) cause : Eval α) (raise (some line) cause) Q m :=
  holds_raise? fun _ => nofun

theorem holds_outOfFuel {Q : α → Machine → Prop} :
    Holds R sites (outOfFuel : Eval α) outOfFuel Q m := holds_throw R.permits_outOfFuel

theorem Holds.bind {x y : Eval α} {f g : α → Eval β} {Q : α → Machine → Prop}
    {Q' : β → Machine → Prop} (hx : Holds R sites x y Q m)
    (hf : ∀ a m', m.Extends m' → Q a m' → Holds R sites (f a) (g a) Q' m') :
    Holds R sites (x >>= f) (y >>= g) Q' m := by
  intro hsound hlinked
  obtain ⟨heq, hends⟩ := hx hsound hlinked
  simp only [Bind.bind, EStateM.bind, heq]
  cases hresult : x m with
  | ok a m' =>
      rw [hresult] at hends
      obtain ⟨hext, hsound', hlinked', ha⟩ := hends
      obtain ⟨heq', hends'⟩ := hf a m' hext ha hsound' hlinked'
      exact ⟨heq', hends'.of_extends hext⟩
  | error stop m' =>
      rw [hresult] at hends
      exact ⟨rfl, hends⟩

/-- A computation that ends at once in another sound machine. -/
theorem holds_of_ok {Q : α → Machine → Prop} {x : Eval α} (a : α) (m' : Machine)
    (hx : x m = .ok a m')
    (h : R.Sound m → m.Linked m.current sites → m.Extends m' ∧ R.Sound m' ∧
      m'.Linked m'.current sites ∧ Q a m') :
    Holds R sites x x Q m := by
  intro hsound hlinked
  rw [hx]
  exact ⟨rfl, h hsound hlinked⟩

/-- What is claimed of a result must not depend on which frame is current. -/
theorem Holds.inFrame {x y : Eval α} {Q : α → Machine → Prop} {frame : FrameId}
    (hx : Holds R inner x y Q { m with current := frame }) (hframe : m.Linked frame inner)
    (hQ : ∀ a m', Q a m' → Q a { m' with current := m.current }) :
    Holds R sites (inFrame frame x) (inFrame frame y) Q m := by
  intro hsound hlinked
  have hinside := m.extends_current frame
  obtain ⟨heq, hends⟩ := hx (hsound.congr rfl rfl rfl rfl rfl rfl) (hframe.mono hinside)
  simp only [Eval.inFrame, heq]
  cases hresult : x { m with current := frame } with
  | ok a m' =>
      rw [hresult] at hends
      obtain ⟨hext, hsound', -, ha⟩ := hends
      have hback := m'.extends_current m.current
      have hall := (hinside.trans hext).trans hback
      exact ⟨trivial, hall, hsound'.congr rfl rfl rfl rfl rfl rfl, hlinked.mono hall, hQ a m' ha⟩
  | error stop m' =>
      rw [hresult] at hends
      obtain ⟨hext, hsound', hstop⟩ := hends
      exact ⟨trivial, (hinside.trans hext).trans (m'.extends_current m.current),
        hsound'.congr rfl rfl rfl rfl rfl rfl, hstop⟩

/-- A watched computation whose conditions follow from what is known of its end. -/
theorem Holds.watched {x y : Eval α} {Q : α → Machine → Prop}
    {condition : Machine → Eval.Result α → Prop} (hx : Holds R sites x y Q m)
    (hcondition : R.Sound m → m.Linked m.current sites → ∀ result, Ends R sites m Q result →
      condition m result)
    (stop : Stop) :
    Holds R sites x (watched condition stop y) Q m := by
  intro hsound hlinked
  obtain ⟨heq, hends⟩ := hx hsound hlinked
  refine ⟨?_, hends⟩
  rw [Eval.watched, heq, if_pos (hcondition hsound hlinked _ hends)]

/-! ### Frames -/

theorem holds_currentFrame :
    Holds R sites currentFrame currentFrame (fun frame m' => m'.Linked frame sites) m :=
  holds_of_ok m.current m rfl fun hsound hlinked => ⟨.refl m, hsound, hlinked, hlinked⟩

/-- A new frame for a block, a loop or a call. -/
theorem holds_newFrame {origin : Origin} {site : Site} (hsite : origin.site? = some site)
    (hplain : site.IsPlain) {around : FrameId} (haround : m.Linked around inner) :
    Holds R sites (newFrame origin around) (newFrame origin around)
      (fun frame m' => m'.Linked frame (site :: inner)) m := by
  refine holds_of_ok m.frames.size (m.addFrame origin ⟨∅, some around⟩) rfl fun hsound hlinked => ?_
  have hext := m.extends_addFrame origin ⟨∅, some around⟩
  refine ⟨hext, hsound.addFrame ?_ ?_ ?_, hlinked.mono hext, haround.addFrame hsound.size hsite ∅⟩
  · intro name v hv
    cases hv
  · intro _ decl v horigin
    subst horigin
    cases hsite
    exact hplain.elim
  · intro _ declaration definition horigin
    subst horigin
    cases hsite
    exact hplain.elim

theorem holds_define {frame : FrameId} {name : String} {value : Value} (hvalue : value.Sound R m)
    (hname : R.fromText → Ordinary name) :
    Holds R sites (define frame name value) (define frame name value) (fun _ _ => True) m := by
  refine holds_of_ok () { m with frames := m.frames.define frame name value } rfl
    fun hsound hlinked => ?_
  have hext := Regime.Sound.extends_bind m frame name (some value)
  refine ⟨hext, hsound.bind (fun v hv => ?_) (fun htext => .inl (hname htext)),
    hlinked.mono hext, trivial⟩
  rw [← Option.some.inj hv]
  exact hvalue

theorem holds_declare {frame : FrameId} {name : String} (hname : R.fromText → Ordinary name) :
    Holds R sites (declare frame name) (declare frame name) (fun _ _ => True) m := by
  refine holds_of_ok () { m with frames := m.frames.declare frame name } rfl
    fun hsound hlinked => ?_
  have hext := Regime.Sound.extends_bind m frame name none
  exact ⟨hext, hsound.bind (fun v hv => nomatch hv) (fun htext => .inl (hname htext)),
    hlinked.mono hext, trivial⟩

/-- Going on in a copy of the current frame changes nothing about the scopes around it. -/
theorem holds_nextIteration {site : Site} {outer : List Site} :
    Holds R (site :: outer) nextIteration nextIteration (fun _ _ => True) m := by
  intro hsound hlinked
  obtain ⟨origin, horigin, hsite⟩ := Option.bind_eq_some_iff.1 hlinked.1
  obtain ⟨-, around, henclosing, hrest⟩ := hlinked
  let copy := m.addFrame origin ⟨m.frames.slots m.current, some around⟩
  have hext : m.Extends copy := m.extends_addFrame origin _
  have hstep : nextIteration m = .ok () { copy with current := m.frames.size } := by
    simp only [nextIteration, FrameStore.snapshot, horigin, henclosing, Option.getD_some]
    rfl
  have hcopy : R.Sound copy := by
    refine hsound.addFrame (fun hv => hsound.slots hv) ?_ ?_
    · intro htext decl v heq
      exact hsound.receivers htext (heq ▸ horigin)
    · intro htext declaration definition heq
      exact hsound.superclasses htext (heq ▸ horigin)
  have hlinked' : copy.Linked m.frames.size (site :: outer) := hrest.addFrame hsound.size hsite _
  rw [hstep]
  have hback := copy.extends_current m.frames.size
  exact ⟨rfl, hext.trans hback, hcopy.congr rfl rfl rfl rfl rfl rfl, hlinked'.mono hback, trivial⟩

/-! ### Objects and the outside world -/

/-- A step that changes nothing the regime speaks about. -/
theorem holds_quiet {Q : α → Machine → Prop} {x : Eval α} (a : α) (m' : Machine)
    (hx : x m = .ok a m') (hframes : m'.frames = m.frames) (horigins : m'.origins = m.origins)
    (hglobals : m'.globals = m.globals) (hcurrent : m'.current = m.current)
    (hfields : m'.fields = m.fields) (hnatives : m'.natives = m.natives)
    (hdistances : m'.distances = m.distances) (hQ : R.Sound m → Q a m') :
    Holds R sites x x Q m := by
  refine holds_of_ok a m' hx fun hsound hlinked => ?_
  have hext : m.Extends m' :=
    ⟨hglobals, fun ho => by rw [horigins]; exact ho, fun he => by rw [hframes]; exact he,
    fun hn => by rw [hnatives]; exact hn⟩
  refine ⟨hext, hsound.congr hframes horigins hglobals hfields hnatives hdistances, ?_, hQ hsound⟩
  rw [hcurrent]
  exact hlinked.mono hext

theorem holds_freshId : Holds R sites freshId freshId (fun _ _ => True) m :=
  holds_quiet m.nextId { m with nextId := m.nextId + 1 } rfl rfl rfl rfl rfl rfl rfl rfl
    fun _ => trivial

theorem holds_record (provenance : Provenance) :
    Holds R sites (record provenance) (record provenance) (fun _ _ => True) m :=
  holds_quiet () { m with provenances := m.provenances ++ [provenance] } rfl rfl rfl rfl rfl rfl rfl
    rfl fun _ => trivial

theorem holds_write (text : String) : Holds R sites (write text) (write text) (fun _ _ => True) m :=
  holds_quiet () { m with output := m.output ++ text } rfl rfl rfl rfl rfl rfl rfl rfl
    fun _ => trivial

theorem holds_readClock : Holds R sites readClock readClock (fun _ _ => True) m :=
  holds_quiet _ { m with world := { m.world with clockReadings := m.world.clockReadings + 1 } } rfl
    rfl rfl rfl rfl rfl rfl rfl
    fun _ => trivial

theorem holds_pick (low high : Int) :
    Holds R sites (pick low high) (pick low high) (fun _ _ => True) m :=
  holds_quiet _ { m with world := { m.world with randomPicks := m.world.randomPicks + 1 } } rfl rfl
    rfl rfl rfl rfl rfl rfl
    fun _ => trivial

/-- Reading fails where the input is not text. -/
theorem holds_readLine (h : R.fromText → R.Blames .inputNotUtf8) :
    Holds R sites readLine readLine (fun _ _ => True) m := by
  intro hsound hlinked
  refine ⟨rfl, ?_⟩
  unfold readLine
  split
  · exact ⟨.refl m, hsound, hlinked, trivial⟩
  · have hext : m.Extends { m with
      world := { m.world with input := (splitLine m.world.input).2 } } := ⟨rfl, id, id, id⟩
    dsimp only
    split
    · exact ⟨hext, hsound.congr rfl rfl rfl rfl rfl rfl, hlinked.mono hext, trivial⟩
    · exact ⟨hext, hsound.congr rfl rfl rfl rfl rfl rfl, R.permits_error fun htext _ => h htext⟩

theorem holds_newHolder : Holds R sites newHolder newHolder (fun _ _ => True) m := by
  have hext : m.Extends { m with fields := m.fields.push ∅ } := ⟨rfl, id, id, id⟩
  exact holds_of_ok m.fields.size _ rfl fun hsound hlinked =>
    ⟨hext, hsound.newHolder, hlinked.mono hext, trivial⟩

theorem holds_field? (holder : Nat) (name : String) :
    Holds R sites (field? holder name) (field? holder name)
      (fun found m' => ∀ v, found = some v → v.Sound R m') m := by
  refine holds_of_ok _ m rfl fun hsound hlinked => ⟨.refl m, hsound, hlinked, fun v hv => ?_⟩
  obtain ⟨table, htable, hfind⟩ := Option.bind_eq_some_iff.1 hv
  exact hsound.fields htable hfind

theorem holds_setField {holder : Nat} {name : String} {value : Value} (hvalue : value.Sound R m) :
    Holds R sites (setField holder name value) (setField holder name value)
      (fun _ _ => True) m := by
  have hext : m.Extends { m with fields := m.fields.modify holder (·.insert name value) } :=
    ⟨rfl, id, id, id⟩
  exact holds_of_ok () _ rfl fun hsound hlinked =>
    ⟨hext, hsound.setField hvalue, hlinked.mono hext, trivial⟩

end Eval
end TraitScript
