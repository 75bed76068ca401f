import TraitScript.Proofs.Eval.Soundness

/-!
# Overseeing a run

An oversight is a watch that also looks at calls and at methods that are bound to a receiver. Under
an oversight whose conditions follow from what a regime knows, programs that the regime allows run
as they do without.
-/

namespace TraitScript

/-- A watch that also looks at calls and at methods that are bound to a receiver. -/
structure Oversight extends Watch where
  invoke : Value → (line : Nat) → List Value → Machine → Eval.Result Value → Prop :=
    fun _ _ _ _ _ => True
  bind : Closure → Value → Machine → Prop := fun _ _ _ => True

namespace Eval

section Overseen

variable (O : Oversight) (stop : Stop)

noncomputable def overseenBindReceiver (method : Closure) (receiver : Value) : Eval Closure :=
  watched (fun m _ => O.bind method receiver m) stop (bindReceiver method receiver)

noncomputable def overseenBindMethod (self : Evaluators) (method : Closure) (receiver : Value) :
    Eval Value := do
  let bound ← overseenBindReceiver O stop method receiver
  if bound.isGetter then callClosure self bound [] else pure (.function bound)

noncomputable def overseenGetProperty (self : Evaluators) (object : Value) (name : Token) :
    Eval Value := do
  match object.holder? with
  | none => raiseAt name .propertyOfNonInstance
  | some holder =>
    match ← field? holder name.lexeme with
    | some value => pure value
    | none =>
      match object.findMethod name.lexeme with
      | some method => overseenBindMethod O stop self method object
      | none => raiseAt name (.undefinedProperty name.lexeme)

noncomputable def overseenConstruct (self : Evaluators) (definition : Class)
    (arguments : List Value) : Eval Value := do
  let inst := Value.object { id := ← newHolder, definingClass := definition }
  match definition.initializer? with
  | none => pure inst
  | some init =>
    let bound ← overseenBindReceiver O stop init inst
    let _ ← callClosure self bound arguments
    pure inst

/-- One step on an expression: methods are bound by reading properties and by `super`. -/
noncomputable def overseenEvaluateStep (self : Evaluators) : Expr → Eval Value
  | .get object name => do
    let object ← self.evaluate object
    overseenGetProperty O stop self object name
  | .super id keyword method => do
    let target ← superTarget id keyword method
    overseenBindMethod O stop self target.1 target.2
  | expr => evaluateStep self expr

/-- One step of a call: initializers are bound by calling a class. -/
noncomputable def overseenInvokeStep (self : Evaluators) :
    Value → (line : Nat) → List Value → Eval Value
  | .classValue definition, line, arguments => do
    checkArity line definition.arity arguments.length
    overseenConstruct O stop self definition arguments
  | callee, line, arguments => invokeStep self callee line arguments

/-- Evaluators under oversight. -/
noncomputable def Evaluators.overseen (evaluate : Expr → Eval Value) (execute : Stmt → Eval Flow)
    (invoke : Value → Nat → List Value → Eval Value) : Evaluators :=
  .watched O.toWatch stop evaluate execute fun callee line arguments =>
    Eval.watched (O.invoke callee line arguments) stop (invoke callee line arguments)

/-- The evaluators with a certain fuel, overseen at every step. -/
noncomputable def overseenInside : (fuel : Nat) → Evaluators
  | 0 => .overseen O stop (fun _ => outOfFuel) (fun _ => outOfFuel) (fun _ _ _ => outOfFuel)
  | fuel + 1 =>
    .overseen O stop (overseenEvaluateStep O stop (overseenInside fuel))
      (executeStep (overseenInside fuel) fuel)
      (overseenInvokeStep O stop (overseenInside fuel))

/-- The evaluators to run programs with under oversight. -/
noncomputable def overseenEvaluators (fuel : Nat) : Evaluators :=
  { overseenInside O stop fuel with
    execute := fun stmt =>
      watched (O.executeTop stmt) stop ((overseenInside O stop fuel).execute stmt) }

end Overseen

/-! ### Regimes -/

/-- The conditions of an oversight follow from what a regime knows of each evaluation and each
call. -/
structure Obeys (R : Regime) (O : Oversight) : Prop extends Follows R O.toWatch where
  invoke :
    ∀ {sites : List Site} {fuel : Nat} {callee : Value} {line : Nat} {arguments : List Value}
      {m : Machine}, callee.Sound R m →
    (∀ v ∈ arguments, v.Sound R m) → R.Sound m → m.Linked m.current sites →
    Ends R sites m (fun v m' => v.Sound R m') (Eval.invoke fuel callee line arguments m) →
    O.invoke callee line arguments m (Eval.invoke fuel callee line arguments m)
  bind : ∀ {sites : List Site} {method : Closure} {receiver : Value} {m : Machine},
      method.Member R m receiver.receiverKind →
    receiver.Sound R m → R.Sound m → m.Linked m.current sites → O.bind method receiver m

variable {R : Regime} {sites : List Site} {m : Machine} {self watching : Evaluators}
  {O : Oversight} {stop : Stop}

theorem holds_overseenBindReceiver (hO : Obeys R O) {method : Closure} {receiver : Value}
    (hmethod : method.Member R m receiver.receiverKind) (hreceiver : receiver.Sound R m) :
    Holds R sites (bindReceiver method receiver) (overseenBindReceiver O stop method receiver)
      (fun bound m' => bound.Bound R m') m :=
  (holds_bindReceiver hmethod hreceiver rfl).watched
    (fun hsound hlinked _ _ => hO.bind hmethod hreceiver hsound hlinked) stop

theorem holds_overseenBindMethod (hself : Related R self watching) (hO : Obeys R O)
    {method : Closure} {receiver : Value} (hmethod : method.Member R m receiver.receiverKind)
    (hreceiver : receiver.Sound R m) :
    Holds R sites (bindMethod self method receiver)
      (overseenBindMethod O stop watching method receiver) (fun v m' => v.Sound R m') m := by
  refine (holds_overseenBindReceiver hO hmethod hreceiver).bind fun bound m' _ hbound => ?_
  split
  · exact holds_callClosure hself hbound (by simp)
  · exact holds_pure _ fun _ => hbound

theorem holds_overseenGetProperty (hself : Related R self watching) (hO : Obeys R O)
    {object : Value} (name : Token) (hobject : object.Sound R m) :
    Holds R sites (getProperty self object name) (overseenGetProperty O stop watching object name)
      (fun v m' => v.Sound R m') m := by
  unfold getProperty overseenGetProperty
  cases object.holder? with
  | none => exact holds_raise _ _
  | some holder =>
      refine (holds_field? holder name.lexeme).bind fun found m' hext hfound => ?_
      cases found with
      | some value => exact holds_pure value fun _ => hfound value rfl
      | none =>
          have hobject' := hobject.mono (.refl R) hext
          cases hmethod : object.findMethod name.lexeme with
          | some method =>
            exact holds_overseenBindMethod hself hO (hobject'.findMethod hmethod) hobject'
          | none => exact holds_raise _ _

theorem holds_overseenConstruct (hself : Related R self watching) (hO : Obeys R O)
    {definition : Class} {arguments : List Value} (hclass : definition.Sound R m)
    (harguments : ∀ v ∈ arguments, v.Sound R m) :
    Holds R sites (construct self definition arguments)
      (overseenConstruct O stop watching definition arguments) (fun v m' => v.Sound R m') m := by
  refine holds_newHolder.bind fun id m₁ hext₁ _ => ?_
  have hclass₁ := hclass.mono (.refl R) hext₁
  cases hinit : definition.initializer? with
  | none => exact holds_pure _ fun _ => hclass₁
  | some init =>
      have hmember : init.Member R m₁ .ofInstance := hclass₁.findMethod hinit
      have hinst : (Value.object ⟨id, definition⟩).Sound R m₁ := hclass₁
      refine (holds_overseenBindReceiver hO hmember hinst).bind fun bound m₂ hext₂ hbound => ?_
      refine (holds_callClosure hself hbound fun v hv => (harguments v hv).mono (.refl R)
        (hext₁.trans hext₂)).bind fun _ m₃ hext₃ _ => ?_
      exact holds_pure _ fun _ => hclass₁.mono (.refl R) (hext₂.trans hext₃)

/-- Only reading a property and `super` are overseen in another way than they are watched. -/
theorem holds_overseenEvaluateStep (hself : Related R self watching) (hO : Obeys R O) {p : Place}
    {expr : Expr} (hallows : R.Allows (expr.uses p)) :
    Holds R p.sites (evaluateStep self expr) (overseenEvaluateStep O stop watching expr)
      (fun v m' => v.Sound R m') m := by
  cases expr with
  | get object name =>
      rw [Expr.uses] at hallows
      exact (hself.evaluate hallows).bind fun v m' _ hv =>
        holds_overseenGetProperty hself hO name hv
  | super id keyword method =>
      rw [Expr.uses, Regime.allows_cons] at hallows
      rw [evaluateStep, getSuper_eq_superTarget]
      exact (holds_superTarget method hallows.1).bind fun target m' _ htarget =>
        holds_overseenBindMethod hself hO htarget.1 htarget.2
  | literal _ | group _ | unary _ _ | binary _ _ _ | logical _ _ _ | conditional _ _ _
  | «variable» _ _ | assign _ _ _ | call _ _ _ | function _ | set _ _ _
  | this _ _ => exact holds_evaluateStep hself hallows

/-- Only calls of classes are overseen in another way than they are watched. -/
theorem holds_overseenInvokeStep (hself : Related R self watching) (hO : Obeys R O) {callee : Value}
    (line : Nat) {arguments : List Value} (hcallee : callee.Sound R m)
    (harguments : ∀ v ∈ arguments, v.Sound R m) :
    Holds R sites (invokeStep self callee line arguments)
      (overseenInvokeStep O stop watching callee line arguments) (fun v m' => v.Sound R m') m := by
  cases callee with
  | classValue definition =>
      refine (holds_checkArity line _ _).bind fun _ m' hext _ => ?_
      exact holds_overseenConstruct hself hO (Class.Sound.mono (.refl R) hext hcallee) fun v hv =>
        (harguments v hv).mono (.refl R) hext
  | function _ | native _ | nil | bool _ | number _ | string _ | object _ | traitValue _ =>
    exact holds_invokeStep hself line hcallee harguments

/-- Calls that are watched once more, by a condition that follows from how they end. -/
theorem holds_overseenInvoke (hO : Obeys R O) {fuel : Nat} {callee : Value} {line : Nat}
    {arguments : List Value} {overseen : Eval Value} (hcallee : callee.Sound R m)
    (harguments : ∀ v ∈ arguments, v.Sound R m)
    (hcall : Holds R sites (Eval.invoke fuel callee line arguments) overseen
      (fun v m' => v.Sound R m') m) :
    Holds R sites (Eval.invoke fuel callee line arguments)
      (watched (O.invoke callee line arguments) stop overseen) (fun v m' => v.Sound R m') m := by
  intro hsound hlinked
  obtain ⟨heq, hends⟩ := hcall hsound hlinked
  refine ⟨?_, hends⟩
  rw [watched, heq, if_pos (hO.invoke hcallee harguments hsound hlinked hends)]

/-- With any fuel the evaluators are related to the overseen ones. -/
theorem related_overseenInside (hO : Obeys R O) (stop : Stop) (fuel : Nat) :
    Related R (evaluators fuel) (overseenInside O stop fuel) := by
  induction fuel with
  | zero =>
      refine related_watched hO.toFollows stop (fun _ => holds_outOfFuel) (fun _ => holds_outOfFuel)
        fun hcallee harguments => ?_
      exact holds_overseenInvoke hO hcallee harguments holds_outOfFuel
  | succ fuel ih =>
      refine related_watched hO.toFollows stop
        (fun hallows => holds_overseenEvaluateStep ih hO hallows)
        (fun hallows => holds_executeStep ih fuel hallows) fun hcallee harguments => ?_
      exact holds_overseenInvoke hO hcallee harguments
        (holds_overseenInvokeStep ih hO _ hcallee harguments)

/-- Programs that the regime allows run the same way under oversight. -/
theorem runsAlike_overseen (hO : Obeys R O) (stop : Stop) (fuel : Nat) :
    RunsAlike R fuel (overseenEvaluators O stop fuel) :=
  runsAlike_of_related hO.toFollows stop (related_overseenInside hO stop fuel)

end Eval
end TraitScript
