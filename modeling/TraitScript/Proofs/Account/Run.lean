import TraitScript.Proofs.Account.Judgement
import TraitScript.Proofs.Eval.Oversight

/-!
# Runs that are accounted for

Every step on any tree, under the assumption that the evaluators it re-enters are accounted for: one
case for each form of expression and statement. By induction on the fuel every evaluation is
accounted for, and an oversight whose conditions follow from the account makes no difference to a
run.

What may be assumed at every evaluation is given by a watch of its own, so that what is known of
resolved programs can be used without being proved again.
-/

namespace TraitScript

namespace Eval

/-! ### Watching for nothing -/

@[simp] theorem watched_true {α : Type} (stop : Stop) (action : Eval α) :
    watched (fun _ _ => True) stop action = action := by
  funext m
  simp [watched]

theorem watchedInside_nothing (stop : Stop) (fuel : Nat) :
    watchedInside {} stop fuel = evaluators fuel := by
  induction fuel with
  | zero =>
    simp [watchedInside, Evaluators.watched, evaluators, Evaluators.of, evaluate, execute, invoke]
  | succ fuel ih =>
      rw [watchedInside, ih]
      simp [Evaluators.watched, evaluators, Evaluators.of, evaluate, execute, invoke]

theorem watchedEvaluators_nothing (stop : Stop) (fuel : Nat) :
    watchedEvaluators {} stop fuel = evaluators fuel := by
  simp [watchedEvaluators, watchedInside_nothing]

end Eval

namespace Account

open Eval

/-- A value that a statement returns may occur. -/
def Flows (I : Account) (k : I.Known) : Flow → Prop
  | .returning value => I.admits k value
  | .normal | .breaking | .continuing => True

theorem Flows.mono {I : Account} (hI : I.Lawful) {k k' : I.Known} {flow : Flow} (hle : I.le k k')
    (h : I.Flows k flow) : I.Flows k' flow := by
  cases flow with
  | returning value => exact hI.admits_mono hle h
  | normal | breaking | continuing => exact trivial

/-- Evaluators and their watched versions agree and are accounted for, whatever they are given. -/
structure Related (I : Account) (base watching : Evaluators) : Prop where
  evaluate : ∀ {k expr m}, I.Keeps True k (base.evaluate expr) (watching.evaluate expr)
      (fun v k' _ => I.admits k' v) m
  execute : ∀ {k stmt m}, I.Keeps True k (base.execute stmt) (watching.execute stmt)
      (fun flow k' _ => I.Flows k' flow) m
  executeBlock : ∀ {k statements frame m}, I.scope k frame →
    I.Keeps True k (base.executeBlock statements frame) (watching.executeBlock statements frame)
    (fun flow k' _ => I.Flows k' flow) m
  invoke : ∀ {k callee line arguments m}, I.admits k callee → (∀ v ∈ arguments, I.admits k v) →
    I.Keeps True k (base.invoke callee line arguments) (watching.invoke callee line arguments)
    (fun v k' _ => I.admits k' v) m

/-- An oversight lets every method be bound that the account lets be bound. -/
def Binds (I : Account) (O : Oversight) : Prop :=
  ∀ {k m v method}, I.fits k m → I.admits k v → I.receives k v method → O.bind method v m

variable {I : Account} {stays : Prop} {k : I.Known} {m : Machine} {self watching : Evaluators}
  {O : Oversight} {stop : Stop} (hI : I.Lawful)

include hI

/-! ### Sequences and loops -/

theorem keeps_executeAll {execute execute' : Stmt → Eval Flow}
    (hexecute : ∀ {k stmt m}, I.Keeps True k (execute stmt) (execute' stmt)
      (fun flow k' _ => I.Flows k' flow) m)
    {statements : List Stmt} :
    I.Keeps True k (executeAll execute statements) (executeAll execute' statements)
      (fun flow k' _ => I.Flows k' flow) m := by
  induction statements generalizing k m with
  | nil => exact keeps_pure hI Flow.normal trivial
  | cons stmt rest ih =>
      refine hexecute.bind hI fun flow k' m' _ _ hflow => ?_
      cases flow with
      | normal => exact ih
      | returning _ | breaking | continuing => exact keeps_pure hI _ hflow

theorem keeps_whileLoop {condition condition' : Eval Value} {body body' : Eval Flow}
    (hcondition : ∀ {k m}, I.Keeps True k condition condition' (fun v k' _ => I.admits k' v) m)
    (hbody : ∀ {k m}, I.Keeps True k body body' (fun flow k' _ => I.Flows k' flow) m)
    (rounds : Nat) :
    I.Keeps True k (whileLoop condition body rounds) (whileLoop condition' body' rounds)
      (fun flow k' _ => I.Flows k' flow) m := by
  induction rounds generalizing k m with
  | zero => exact keeps_throw hI _
  | succ rounds ih =>
      refine hcondition.bind hI fun v k₁ m₁ _ _ _ => ?_
      split
      · refine hbody.bind hI fun flow k₂ m₂ _ _ hflow => ?_
        cases flow with
        | breaking => exact keeps_pure hI Flow.normal trivial
        | returning value => exact keeps_pure hI _ hflow
        | normal | continuing => exact ih
      · exact keeps_pure hI Flow.normal trivial

theorem keeps_holds {condition condition' : Option (Eval Value)}
    (hcondition : ∀ {k m}, Option.Rel
      (fun x y => I.Keeps True k x y (fun v k' _ => I.admits k' v) m) condition condition') :
    I.Keeps stays k (holds condition) (holds condition') (fun _ _ _ => True) m := by
  cases hcondition (k := k) (m := m) with
  | none => exact keeps_pure hI true trivial
  | some h => exact h.loose.bind hI fun v k' m' _ _ _ => keeps_pure hI _ trivial

theorem keeps_perhaps {part part' : Option (Eval Value)}
    (hpart : ∀ {k m}, Option.Rel
      (fun x y => I.Keeps True k x y (fun v k' _ => I.admits k' v) m) part part') :
    I.Keeps stays k (perhaps part) (perhaps part') (fun _ _ _ => True) m := by
  cases hpart (k := k) (m := m) with
  | none => exact keeps_pure hI () trivial
  | some h => exact h.loose.bind hI fun v k' m' _ _ _ => keeps_pure hI () trivial

/-- The rounds of a `for` go on in frame after frame and are only accounted for inside the frame of
the loop. -/
theorem keeps_forLoop {condition condition' increment increment' : Option (Eval Value)}
    {body body' : Eval Flow}
    (hcondition : ∀ {k m}, Option.Rel
      (fun x y => I.Keeps True k x y (fun v k' _ => I.admits k' v) m) condition condition')
    (hincrement : ∀ {k m}, Option.Rel
      (fun x y => I.Keeps True k x y (fun v k' _ => I.admits k' v) m) increment increment')
    (hbody : ∀ {k m}, I.Keeps True k body body' (fun flow k' _ => I.Flows k' flow) m)
    (rounds : Nat) :
    I.Keeps False k (forLoop condition increment body rounds)
      (forLoop condition' increment' body' rounds) (fun flow k' _ => I.Flows k' flow) m := by
  induction rounds generalizing k m with
  | zero => exact keeps_throw hI _
  | succ rounds ih =>
      have hnext : ∀ {k m}, I.Keeps False k
          (do nextIteration; perhaps increment; forLoop condition increment body rounds)
          (do nextIteration; perhaps increment'; forLoop condition' increment' body' rounds)
          (fun flow k' _ => I.Flows k' flow) m :=
        (keeps_nextIteration hI).bind hI fun _ _ _ _ _ _ =>
          (keeps_perhaps hI hincrement).bind hI fun _ _ _ _ _ _ => ih
      refine (keeps_holds hI hcondition).bind hI fun truth k₁ m₁ _ _ _ => ?_
      split
      · refine hbody.loose.bind hI fun flow k₂ m₂ _ _ hflow => ?_
        cases flow with
        | breaking => exact keeps_pure hI Flow.normal trivial
        | returning value => exact keeps_pure hI _ hflow
        | normal | continuing => exact hnext
      · exact keeps_pure hI Flow.normal trivial

/-! ### Calls -/

theorem keeps_defineParams {frame : FrameId} {params : List Token} {arguments : List Value}
    (harguments : ∀ v ∈ arguments, I.admits k v) :
    I.Keeps True k (defineParams frame params arguments) (defineParams frame params arguments)
      (fun _ _ _ => True) m := by
  induction params generalizing arguments k m with
  | nil => exact keeps_pure hI () trivial
  | cons param params ih =>
      cases arguments with
      | nil => exact keeps_pure hI () trivial
      | cons argument arguments =>
          refine (keeps_define hI (harguments argument (List.mem_cons_self ..))).bind hI
            fun _ k' m' hle _ _ => ?_
          exact ih fun v hv => hI.admits_mono hle (harguments v (List.mem_cons_of_mem _ hv))

theorem keeps_callResult (closure : Closure) {flow : Flow} (hflow : I.Flows k flow) :
    I.Keeps True k (callResult closure flow) (callResult closure flow)
      (fun v k' _ => I.admits k' v) m := by
  unfold callResult
  split
  · refine (keeps_readAt hI closure.frame 0 "this").bind hI fun found k' m' _ _ hfound => ?_
    cases found with
    | ok receiver => exact keeps_pure hI receiver (hfound receiver rfl)
    | error error => exact keeps_throw hI _
  · cases flow with
    | returning value => exact keeps_pure hI value hflow
    | normal => exact keeps_pure hI Value.nil (hI.plain trivial)
    | breaking | continuing => exact keeps_throw hI _

theorem keeps_callClosure (hself : I.Related self watching) {closure : Closure}
    {arguments : List Value} (hclosure : I.admits k (.function closure))
    (harguments : ∀ v ∈ arguments, I.admits k v) :
    I.Keeps True k (callClosure self closure arguments) (callClosure watching closure arguments)
      (fun v k' _ => I.admits k' v) m := by
  refine (keeps_callFrame hI hclosure).bind hI fun frame k₁ m₁ hle₁ _ hframe => ?_
  refine (keeps_defineParams hI fun v hv => hI.admits_mono hle₁ (harguments v hv)).bind hI
    fun _ k₂ m₂ hle₂ _ _ => ?_
  refine (hself.executeBlock (hI.scope_mono hle₂ hframe)).bind hI fun flow k₃ m₃ _ _ hflow => ?_
  exact keeps_callResult hI closure hflow

theorem keeps_checkArity (line expected got : Nat) :
    I.Keeps True k (checkArity line expected got) (checkArity line expected got)
      (fun _ _ _ => True) m := by
  unfold checkArity
  split
  · exact keeps_pure hI () trivial
  · exact keeps_raise hI _ _

theorem keeps_newInstance {definition : Class} (hclass : I.admits k (.classValue definition)) :
    I.Keeps True k newHolder newHolder (fun id k' _ => I.admits k' (.object ⟨id, definition⟩)) m :=
  keeps_of_ok m.fields.size { m with fields := m.fields.push ∅ } rfl (fun _ => rfl) fun hfits =>
    hI.inst hfits hclass

theorem keeps_overseenBindReceiver (hbinds : I.Binds O) {method : Closure} {v : Value}
    (hv : I.admits k v) (hreceives : I.receives k v method) :
    I.Keeps True k (bindReceiver method v) (overseenBindReceiver O stop method v)
      (fun bound k' _ => I.admits k' (.function bound)) m := by
  have hkeeps : I.Keeps True k (bindReceiver method v) (bindReceiver method v)
      (fun bound k' _ => I.admits k' (.function bound)) m :=
    keeps_bindReceiver hI hv hreceives
  intro hfits
  obtain ⟨-, hends⟩ := hkeeps hfits
  refine ⟨?_, hends⟩
  rw [overseenBindReceiver, watched, if_pos (hbinds hfits hv hreceives)]

theorem keeps_construct (hself : I.Related self watching) (hbinds : I.Binds O) {definition : Class}
    {arguments : List Value} (hclass : I.admits k (.classValue definition))
    (harguments : ∀ v ∈ arguments, I.admits k v) :
    I.Keeps True k (construct self definition arguments)
      (overseenConstruct O stop watching definition arguments)
      (fun v k' _ => I.admits k' v) m := by
  refine (keeps_newInstance hI hclass).bind hI fun id k₁ m₁ hle₁ _ hinst => ?_
  cases hinit : definition.initializer? with
  | none => exact keeps_pure hI _ hinst
  | some init =>
      have hreceives : I.receives k₁ (.object ⟨id, definition⟩) init := hI.finds hinst hinit
      refine (keeps_overseenBindReceiver hI hbinds hinst hreceives).bind hI
        fun bound k₂ m₂ hle₂ _ hbound => ?_
      refine (keeps_callClosure hI hself hbound fun v hv => hI.admits_mono (hI.trans hle₁ hle₂)
        (harguments v hv)).bind hI fun _ k₃ m₃ hle₃ _ _ => ?_
      exact keeps_pure hI _ (hI.admits_mono (hI.trans hle₂ hle₃) hinst)

/-! ### Native functions -/

theorem keeps_perform (hself : I.Related self watching) {action : Action} {known : List Value}
    (hpasses : action.Passes known ∨ ∀ k v, I.admits k v) (hknown : ∀ v ∈ known, I.admits k v) :
    I.Keeps True k (perform self action) (perform watching action)
      (fun v k' _ => I.admits k' v) m := by
  have hgiven : ∀ {known : List Value} {k v}, (∀ v ∈ known, I.admits k v) →
      (v.IsPlain ∨ v ∈ known) ∨ (∀ k v, I.admits k v) → I.admits k v :=
    fun hknown h => h.elim (fun h => h.elim hI.plain (hknown _)) fun hall => hall _ _
  induction action generalizing known k m with
  | done value => exact keeps_pure hI value (hgiven hknown hpasses)
  | fail cause => exact keeps_raise hI none cause
  | write text next ih =>
      exact (keeps_write hI text).bind hI fun _ _ _ hle _ _ => ih hpasses fun v hv =>
        hI.admits_mono hle (hknown v hv)
  | readLine next ih =>
      exact (keeps_readLine hI).bind hI fun line _ _ hle _ _ =>
        ih line (hpasses.imp_left (· line)) fun v hv => hI.admits_mono hle (hknown v hv)
  | readClock next ih =>
      exact (keeps_readClock hI).bind hI fun seconds _ _ hle _ _ =>
        ih seconds (hpasses.imp_left (· seconds)) fun v hv => hI.admits_mono hle (hknown v hv)
  | pick low high next ih =>
      exact (keeps_pick hI low high).bind hI fun n _ _ hle _ _ =>
        ih n (hpasses.imp_left (· n)) fun v hv => hI.admits_mono hle (hknown v hv)
  | call callee line arguments next ih =>
      have hpassed : ∀ v ∈ callee :: arguments, I.admits k v :=
        fun v hv => hgiven hknown (hpasses.imp_left fun h => h.1 v hv)
      obtain ⟨hcallee, harguments⟩ := List.forall_mem_cons.1 hpassed
      refine (hself.invoke hcallee harguments).bind hI fun value k' m' hle _ hvalue => ?_
      refine ih value (hpasses.imp_left fun h => h.2 value) fun v hv => ?_
      rcases List.mem_cons.1 hv with rfl | hold
      · exact hvalue
      · exact hI.admits_mono hle (hknown v hold)

theorem keeps_nativeAction (ref : NativeRef) (arguments : List Value) :
    I.Keeps True k (nativeAction ref arguments) (nativeAction ref arguments)
      (fun action _ _ => action.Passes arguments ∨ ∀ k v, I.admits k v) m := by
  intro hfits
  refine ⟨rfl, ?_⟩
  unfold nativeAction
  split
  next native hnative =>
    have hpasses := (hI.natives hfits native (Array.mem_of_getElem? hnative)).imp_left (· arguments)
    exact ⟨fun _ => rfl, k, hI.refl k, hfits, hpasses⟩
  next => exact ⟨fun _ => rfl, k, hI.refl k, hfits, .inl trivial⟩

theorem keeps_invokeStep (hself : I.Related self watching) (hbinds : I.Binds O) {callee : Value}
    (line : Nat) {arguments : List Value} (hcallee : I.admits k callee)
    (harguments : ∀ v ∈ arguments, I.admits k v) :
    I.Keeps True k (invokeStep self callee line arguments)
      (overseenInvokeStep O stop watching callee line arguments)
      (fun v k' _ => I.admits k' v) m := by
  cases callee with
  | function closure =>
      refine (keeps_checkArity hI line _ _).bind hI fun _ k' m' hle _ _ => ?_
      exact keeps_callClosure hI hself (hI.admits_mono hle hcallee) fun v hv =>
        hI.admits_mono hle (harguments v hv)
  | native ref =>
      refine (keeps_checkArity hI line _ _).bind hI fun _ k₁ m₁ hle₁ _ _ => ?_
      refine (keeps_nativeAction hI ref arguments).bind hI fun action k₂ m₂ hle₂ _ hpasses => ?_
      exact keeps_perform hI hself hpasses fun v hv =>
        hI.admits_mono (hI.trans hle₁ hle₂) (harguments v hv)
  | classValue definition =>
      refine (keeps_checkArity hI line _ _).bind hI fun _ k' m' hle _ _ => ?_
      exact keeps_construct hI hself hbinds (hI.admits_mono hle hcallee) fun v hv =>
        hI.admits_mono hle (harguments v hv)
  | nil | bool _ | number _ | string _ | object _ | traitValue _ => exact keeps_raise hI _ _

/-! ### Properties -/

theorem keeps_bindMethod (hself : I.Related self watching) (hbinds : I.Binds O) {method : Closure}
    {receiver : Value} (hreceiver : I.admits k receiver)
    (hreceives : I.receives k receiver method) :
    I.Keeps True k (bindMethod self method receiver)
      (overseenBindMethod O stop watching method receiver) (fun v k' _ => I.admits k' v) m := by
  refine (keeps_overseenBindReceiver hI hbinds hreceiver hreceives).bind hI
    fun bound k' m' _ _ hbound => ?_
  split
  · exact keeps_callClosure hI hself hbound (by simp)
  · exact keeps_pure hI _ hbound

theorem keeps_getProperty (hself : I.Related self watching) (hbinds : I.Binds O) {object : Value}
    (name : Token) (hobject : I.admits k object) :
    I.Keeps True k (getProperty self object name) (overseenGetProperty O stop watching object name)
      (fun v k' _ => I.admits k' v) m := by
  unfold getProperty overseenGetProperty
  cases object.holder? with
  | none => exact keeps_raise hI _ _
  | some holder =>
      refine (keeps_field? hI holder name.lexeme).bind hI fun found k' m' hle _ hfound => ?_
      cases found with
      | some value => exact keeps_pure hI value (hfound value rfl)
      | none =>
          have hobject' := hI.admits_mono hle hobject
          cases hmethod : object.findMethod name.lexeme with
          | some method =>
            exact keeps_bindMethod hI hself hbinds hobject' (hI.finds hobject' hmethod)
          | none => exact keeps_raise hI _ _

/-- What `super` finds may be bound to the receiver. -/
def Targets (I : Account) (target : Closure × Value) (k : I.Known) (_ : Machine) : Prop :=
  I.admits k target.2 ∧ I.receives k target.2 target.1

/-- Nothing has to be known of `super` where any method found on a class may be bound to any
receiver. -/
theorem keeps_superTarget_of_finds
    (hfinds : ∀ {k definition v name method}, I.admits k (.classValue definition) →
      superMember definition name v.receiverKind = some method → I.receives k v method)
    (id : Nat) (keyword method : Token) :
    I.Keeps True k (superTarget id keyword method) (superTarget id keyword method) I.Targets m := by
  have hread : I.Keeps True k (distance? id) (distance? id) (fun _ _ _ => True) m :=
    keeps_of_read hI _ rfl fun _ => trivial
  refine hread.bind hI fun found k₁ m₁ _ _ _ => ?_
  cases found with
  | none => exact keeps_throw hI _
  | some distance =>
      have hsuperclass : I.Keeps True k₁ (readSuperclass distance) (readSuperclass distance)
          (fun definition k' _ => I.admits k' (.classValue definition)) m₁ := by
        refine (keeps_currentFrame hI).bind hI fun frame k₂ m₂ _ _ _ => ?_
        refine (keeps_readAt hI frame distance "super").bind hI fun found k₃ m₃ _ _ hfound => ?_
        split
        · exact keeps_pure hI _ (hfound _ rfl)
        · exact keeps_throw hI _
        · exact keeps_throw hI _
      have hreceiver : ∀ {k m}, I.Keeps True k (readReceiver distance keyword)
          (readReceiver distance keyword) (fun v k' _ => I.admits k' v) m := by
        intro k m
        refine (keeps_currentFrame hI).bind hI fun frame k₂ m₂ _ _ _ => ?_
        refine (keeps_readAt hI frame (receiverDistance distance) "this").bind hI
          fun found k₃ m₃ _ _ hfound => ?_
        cases found with
        | ok receiver => exact keeps_pure hI receiver (hfound receiver rfl)
        | error error => exact keeps_throw hI _
      refine hsuperclass.bind hI fun definition k₂ m₂ _ _ hdefinition =>
        hreceiver.bind hI fun receiver k₃ m₃ hle₃ _ hreceiver => ?_
      rw [superMethod_eq]
      split
      next found hfound =>
        exact keeps_pure hI (found, receiver)
          ⟨hreceiver, hfinds (hI.admits_mono hle₃ hdefinition) hfound⟩
      next => exact keeps_raise hI _ _

/-! ### Expressions -/

theorem keeps_applied (operator : Token) {result : Operator.Result}
    (h : ∀ v, result = .ok v → I.admits k v) :
    I.Keeps True k (applied operator result) (applied operator result)
      (fun v k' _ => I.admits k' v) m := by
  cases result with
  | ok value => exact keeps_pure hI value (h value rfl)
  | error cause => exact keeps_raise hI _ _

theorem keeps_evaluateAll (hself : I.Related self watching) {exprs : List Expr} :
    I.Keeps True k (evaluateAll self exprs) (evaluateAll watching exprs)
      (fun vs k' _ => ∀ v ∈ vs, I.admits k' v) m := by
  induction exprs generalizing k m with
  | nil => exact keeps_pure hI _ (by simp)
  | cons expr rest ih =>
      refine hself.evaluate.bind hI fun value k₁ m₁ _ _ hvalue =>
        ih.bind hI fun values k₂ m₂ hle₂ _ hvalues => ?_
      refine keeps_pure hI _ fun v hv => ?_
      rcases List.mem_cons.1 hv with rfl | hrest
      · exact hI.admits_mono hle₂ hvalue
      · exact hvalues v hrest

theorem keeps_evaluate? (hself : I.Related self watching) {expr : Option Expr} :
    I.Keeps True k (evaluate? self expr) (evaluate? watching expr)
      (fun found k' _ => ∀ v, found = some v → I.admits k' v) m := by
  cases expr with
  | none => exact keeps_pure hI none (by simp)
  | some expr =>
    exact hself.evaluate.bind hI fun value k' m' _ _ hvalue =>
      keeps_pure hI (some value) fun v hv => Option.some.inj hv ▸ hvalue

theorem keeps_functionExpr (decl : FunctionDecl) :
    I.Keeps True k
      (do let closure ← makeClosure decl (← currentFrame) false; pure (Value.function closure))
      (do let closure ← makeClosure decl (← currentFrame) false; pure (Value.function closure))
      (fun v k' _ => I.admits k' v) m := by
  refine (keeps_currentFrame hI).bind hI fun frame k₁ m₁ _ _ hframe => ?_
  rw [hframe.2]
  exact (keeps_makeFunction hI decl).bind hI fun closure k₂ m₂ _ _ hclosure =>
    keeps_pure hI _ hclosure

/-- One step on an expression; what `super` finds is left to the account. -/
theorem keeps_evaluateStep (hself : I.Related self watching) (hbinds : I.Binds O) {expr : Expr}
    (hsuper : ∀ id keyword method, expr = .super id keyword method →
      I.Keeps True k (superTarget id keyword method) (superTarget id keyword method) I.Targets m) :
    I.Keeps True k (evaluateStep self expr) (overseenEvaluateStep O stop watching expr)
      (fun v k' _ => I.admits k' v) m := by
  cases expr with
  | literal value => exact keeps_pure hI _ (hI.plain (by cases value <;> trivial))
  | group inner => exact hself.evaluate
  | unary operator right =>
      refine hself.evaluate.bind hI fun value k' m' _ _ _ =>
        keeps_applied hI operator fun v hv => ?_
      exact hI.plain (Operator.plain_of_unary hv)
  | binary left operator right =>
      refine hself.evaluate.bind hI fun a k₁ m₁ _ _ _ =>
        hself.evaluate.bind hI fun b k₂ m₂ _ _ hb => ?_
      refine keeps_applied hI operator fun v hv => ?_
      rcases Operator.plain_or_right_of_binary hv with hplain | rfl
      · exact hI.plain hplain
      · exact hb
  | logical left operator right =>
      refine hself.evaluate.bind hI fun value k' m' _ _ hvalue => ?_
      split
      · exact keeps_pure hI value hvalue
      · exact hself.evaluate
  | conditional condition thenBranch elseBranch =>
      refine hself.evaluate.bind hI fun value k' m' _ _ _ => ?_
      split
      · exact hself.evaluate
      · exact hself.evaluate
  | «variable» id name => exact keeps_readVariable hI id name
  | assign id name value =>
      refine hself.evaluate.bind hI fun v k₁ m₁ _ _ hv =>
        (keeps_writeVariable hI id name hv).bind hI fun _ k₂ m₂ hle₂ _ _ => ?_
      exact keeps_pure hI v (hI.admits_mono hle₂ hv)
  | call callee paren arguments =>
      refine hself.evaluate.bind hI fun f k₁ m₁ _ _ hf =>
        (keeps_evaluateAll hI hself).bind hI fun vs k₂ m₂ hle₂ _ hvs => ?_
      exact hself.invoke (hI.admits_mono hle₂ hf) hvs
  | function decl => exact keeps_functionExpr hI decl
  | get object name =>
    exact hself.evaluate.bind hI fun v k' m' _ _ hv => keeps_getProperty hI hself hbinds name hv
  | set object name value =>
      refine hself.evaluate.bind hI fun holder k₁ m₁ _ _ _ => ?_
      cases holder.holder? with
      | none => exact keeps_raise hI _ _
      | some id =>
          refine hself.evaluate.bind hI fun v k₂ m₂ _ _ hv =>
            (keeps_setField hI hv).bind hI fun _ k₃ m₃ hle₃ _ _ => ?_
          exact keeps_pure hI v (hI.admits_mono hle₃ hv)
  | this id keyword => exact keeps_readVariable hI id keyword
  | super id keyword method =>
      rw [evaluateStep, getSuper_eq_superTarget]
      exact (hsuper id keyword method rfl).bind hI fun target k' m' _ _ htarget =>
        keeps_bindMethod hI hself hbinds htarget.1 htarget.2

/-! ### Statements -/

theorem keeps_introduce {name : Token} {value : Option Value}
    (hvalue : ∀ v, value = some v → I.admits k v) :
    I.Keeps True k (introduce name value) (introduce name value) (fun _ _ _ => True) m := by
  cases value with
  | none => exact (keeps_currentFrame hI).bind hI fun frame k' m' _ _ _ => keeps_declare hI
  | some v =>
    exact (keeps_currentFrame hI).bind hI fun frame k' m' hle _ _ =>
      keeps_define hI (hI.admits_mono hle (hvalue v rfl))

theorem keeps_declareFunction (decl : FunctionDecl) :
    I.Keeps True k (declareFunction decl) (declareFunction decl)
      (fun flow k' _ => I.Flows k' flow) m := by
  refine (keeps_currentFrame hI).bind hI fun frame k₁ m₁ _ _ hframe => ?_
  rw [hframe.2]
  refine (keeps_makeFunction hI decl).bind hI fun closure k₂ m₂ _ _ hclosure => ?_
  cases decl.name with
  | none =>
      have hskip : I.Keeps True k₂ (pure ()) (pure ()) (fun _ _ _ => True) m₂ :=
        keeps_pure hI () trivial
      exact hskip.bind hI fun _ _ _ _ _ _ => keeps_pure hI Flow.normal trivial
  | some name =>
    exact (keeps_define hI hclosure).bind hI fun _ _ _ _ _ _ =>
      keeps_pure hI Flow.normal trivial

theorem keeps_enterLoop (hself : I.Related self watching) (initial : Option Stmt) :
    I.Keeps stays k (enterLoop self initial) (enterLoop watching initial)
      (fun _ _ _ => True) m := by
  cases initial with
  | none => exact keeps_pure hI () trivial
  | some stmt => exact hself.execute.loose.bind hI fun _ _ _ _ _ _ => keeps_pure hI () trivial

omit hI in
/-- An optional part of a loop, evaluated in every round. -/
theorem related_part (hself : I.Related self watching) (expr : Option Expr) :
    Option.Rel (fun x y => I.Keeps True k x y (fun v k' _ => I.admits k' v) m)
      (expr.map self.evaluate) (expr.map watching.evaluate) := by
  cases expr with
  | none => exact .none
  | some expr => exact .some hself.evaluate

/-- How an account deals with declarations. -/
structure Declares (I : Account) (base watching : Evaluators) : Prop where
  declareClass : ∀ {k name parent body m}, I.Keeps True k (declareClass base name parent body)
      (declareClass watching name parent body)
    (fun flow k' _ => I.Flows k' flow) m
  declareTrait : ∀ {k name body m}, I.Keeps True k (declareTrait base name body)
      (declareTrait watching name body)
    (fun flow k' _ => I.Flows k' flow) m

/-- One step on a statement; declarations of classes and traits are left to the account. -/
theorem keeps_executeStep (hself : I.Related self watching) (hdeclares : I.Declares self watching)
    (rounds : Nat) {stmt : Stmt} :
    I.Keeps True k (executeStep self rounds stmt) (executeStep watching rounds stmt)
      (fun flow k' _ => I.Flows k' flow) m := by
  have hnormal : ∀ {k m}, I.Keeps True k (pure Flow.normal) (pure Flow.normal)
      (fun flow k' _ => I.Flows k' flow) m := keeps_pure hI _ trivial
  cases stmt with
  | expression value => exact hself.evaluate.bind hI fun _ _ _ _ _ _ => hnormal
  | print value =>
    exact hself.evaluate.bind hI fun _ _ _ _ _ _ =>
      (keeps_write hI _).bind hI fun _ _ _ _ _ _ => hnormal
  | «variable» name initial =>
      exact (keeps_evaluate? hI hself).bind hI fun value _ _ _ _ hvalue =>
        (keeps_introduce hI hvalue).bind hI fun _ _ _ _ _ _ => hnormal
  | block statements =>
      refine (keeps_currentFrame hI).bind hI fun around k₁ m₁ _ _ haround => ?_
      refine (keeps_newFrame hI (show Origin.OfStatement (.block _) from trivial) haround.1).bind hI
        fun frame k₂ m₂ _ _ hframe => ?_
      exact hself.executeBlock hframe
  | ifElse condition thenBranch elseBranch =>
      refine hself.evaluate.bind hI fun value k₁ m₁ _ _ _ => ?_
      split
      · exact hself.execute
      · cases elseBranch with
        | none => exact hnormal
        | some branch => exact hself.execute
  | whileLoop condition body => exact keeps_whileLoop hI hself.evaluate hself.execute rounds
  | forLoop initial condition increment body =>
      refine (keeps_currentFrame hI).bind hI fun around k₁ m₁ _ _ haround => ?_
      refine (keeps_newFrame hI (show Origin.OfStatement (.loop _) from trivial) haround.1).bind hI
        fun frame k₂ m₂ _ _ hframe => ?_
      refine Keeps.inFrame hI (fun hle h => h.mono hI hle) hframe fun k₃ _ => ?_
      refine (keeps_enterLoop hI hself initial).bind hI fun _ k₄ m₄ _ _ _ => ?_
      exact keeps_forLoop hI (related_part hself condition) (related_part hself increment)
        hself.execute rounds
  | jump keyword kind => cases kind <;> exact keeps_pure hI _ trivial
  | function decl => exact keeps_declareFunction hI decl
  | returnValue keyword value =>
      refine (keeps_evaluate? hI hself).bind hI fun found k' m' _ _ hfound => keeps_pure hI _ ?_
      cases found with
      | none => exact hI.plain (v := .nil) trivial
      | some v => exact hfound v rfl
  | classDecl name parent body => exact hdeclares.declareClass
  | traitDecl name body => exact hdeclares.declareTrait

/-! ### Every evaluation -/

/-- What an account leaves to be shown of evaluators under a watch: declarations, and `super` where
what is assumed of it holds. -/
structure Handles (I : Account) (A : Watch) (stop : Stop) : Prop where
  declares : ∀ {fuel watching}, I.Related (watchedInside A stop fuel) watching →
      I.Declares (watchedInside A stop fuel) watching
  superTarget : ∀ {k id keyword method m result}, A.evaluate (.super id keyword method) m result →
    I.Keeps True k (superTarget id keyword method) (superTarget id keyword method) I.Targets m

/-- The conditions of an oversight follow from an account and from what is assumed, and include it.
What is assumed speaks of the machine before only. -/
structure Shows (I : Account) (A : Watch) (O : Oversight) : Prop where
  evaluate_assumed : ∀ {expr m result result'}, O.evaluate expr m result → A.evaluate expr m result'
  execute_assumed : ∀ {stmt m result result'}, O.execute stmt m result → A.execute stmt m result'
  executeBlock_assumed :
    ∀ {statements frame m result result'}, O.executeBlock statements frame m result →
    A.executeBlock statements frame m result'
  executeTop_assumed : ∀ {stmt m result result'}, O.executeTop stmt m result →
      A.executeTop stmt m result'
  evaluate : ∀ {k expr m result}, A.evaluate expr m result → I.fits k m →
      I.Ends True k m (fun v k' _ => I.admits k' v) result →
    O.evaluate expr m result
  execute : ∀ {k stmt m result}, A.execute stmt m result → I.fits k m →
      I.Ends True k m (fun flow k' _ => I.Flows k' flow) result →
    O.execute stmt m result
  executeBlock : ∀ {k statements frame m result}, A.executeBlock statements frame m result →
      I.fits k m → I.scope k frame →
    I.Ends True k m (fun flow k' _ => I.Flows k' flow) result →
    O.executeBlock statements frame m result
  invoke : ∀ {k callee line arguments m result}, I.fits k m → I.admits k callee →
      (∀ v ∈ arguments, I.admits k v) →
    I.Ends True k m (fun v k' _ => I.admits k' v) result → O.invoke callee line arguments m result
  executeTop : ∀ {k stmt m result}, A.executeTop stmt m result → I.fits k m →
      I.Ends True k m (fun flow k' _ => I.Flows k' flow) result →
    O.executeTop stmt m result
  binds : I.Binds O

variable {A : Watch}

/-- Evaluators whose steps are accounted for are accounted for, blocks included. -/
theorem related_overseen (hO : I.Shows A O) {evaluate evaluate' : Expr → Eval Value}
    {execute execute' : Stmt → Eval Flow} {invoke invoke' : Value → Nat → List Value → Eval Value}
    (hevaluate : ∀ {k expr m}, A.evaluate expr m (evaluate expr m) →
      I.Keeps True k (evaluate expr) (evaluate' expr) (fun v k' _ => I.admits k' v) m)
    (hexecute : ∀ {k stmt m}, I.Keeps True k (execute stmt) (execute' stmt)
      (fun flow k' _ => I.Flows k' flow) m)
    (hinvoke : ∀ {k callee line arguments m}, I.admits k callee → (∀ v ∈ arguments, I.admits k v) →
      I.Keeps True k (invoke callee line arguments) (invoke' callee line arguments)
      (fun v k' _ => I.admits k' v) m) :
    I.Related (.watched A stop evaluate execute invoke)
      (.overseen O stop evaluate' execute' invoke') := by
  have hstatement : ∀ {k stmt m}, I.Keeps True k (watched (A.execute stmt) stop (execute stmt))
      (watched (O.execute stmt) stop (execute' stmt))
      (fun flow k' _ => I.Flows k' flow) m :=
    Keeps.watched hI (fun _ => hexecute) (fun _ _ => hO.execute_assumed)
      (fun hfits _ hA hends => hO.execute hA hfits hends) stop
  constructor
  · intro k expr m
    exact Keeps.watched hI hevaluate (fun _ _ => hO.evaluate_assumed)
      (fun hfits _ hA hends => hO.evaluate hA hfits hends) stop
  · exact hstatement
  · intro k statements frame m hscope
    refine Keeps.watched hI (fun _ => ?_) (fun _ _ => hO.executeBlock_assumed)
      (fun hfits _ hA hends => hO.executeBlock hA hfits hscope hends) stop
    exact Keeps.inFrame hI (fun hle h => h.mono hI hle) hscope fun _ _ =>
      (keeps_executeAll hI hstatement).loose
  · intro k callee line arguments m hcallee harguments
    have hcall : I.Keeps True k (invoke callee line arguments) (invoke' callee line arguments)
        (fun v k' _ => I.admits k' v) m :=
      hinvoke hcallee harguments
    intro hfits
    obtain ⟨heq, hends⟩ := hcall hfits
    refine ⟨?_, hends⟩
    show watched _ stop (invoke' callee line arguments) m = invoke callee line arguments m
    rw [watched, heq, if_pos (hO.invoke hfits hcallee harguments hends)]

/-- With any fuel the evaluators under a watch are related to those under an oversight that follows
from an account. -/
theorem related_evaluators (hO : I.Shows A O) (hA : I.Handles A stop) (fuel : Nat) :
    I.Related (watchedInside A stop fuel) (overseenInside O stop fuel) := by
  induction fuel with
  | zero =>
    exact related_overseen hI hO (fun _ => keeps_throw hI _) (keeps_throw hI _)
      (fun _ _ => keeps_throw hI _)
  | succ fuel ih =>
      refine related_overseen hI hO (fun {k expr m} hassumed => ?_)
        (keeps_executeStep hI ih (hA.declares ih) fuel)
        (fun hcallee harguments => keeps_invokeStep hI ih hO.binds _ hcallee harguments)
      refine keeps_evaluateStep hI ih hO.binds fun id keyword method heq => ?_
      subst heq
      exact hA.superTarget hassumed

/-! ### Programs -/

theorem keeps_interpretFrom (hO : I.Shows A O) (hA : I.Handles A stop) (fuel : Nat)
    (statements : List Stmt) :
    I.Keeps True k (interpretFrom (watchedEvaluators A stop fuel) statements)
      (interpretFrom (overseenEvaluators O stop fuel) statements)
      (fun _ _ _ => True) m := by
  induction statements generalizing k m with
  | nil => exact keeps_pure hI () trivial
  | cons stmt rest ih =>
      have hstmt : I.Keeps True k ((watchedEvaluators A stop fuel).execute stmt)
          ((overseenEvaluators O stop fuel).execute stmt)
          (fun flow k' _ => I.Flows k' flow) m :=
        Keeps.watched hI (fun _ => (related_evaluators hI hO hA fuel).execute)
          (fun _ _ => hO.executeTop_assumed)
          (fun hfits _ hassumed hends => hO.executeTop hassumed hfits hends) stop
      exact hstmt.bind hI fun _ _ _ _ _ _ => ih

/-- A program runs the same way under oversight, and the account fits afterwards. -/
theorem keeps_interpret (hO : I.Shows A O) (hA : I.Handles A stop) (fuel : Nat)
    (statements : List Stmt) :
    I.Keeps False k (interpret (watchedEvaluators A stop fuel) statements)
      (interpret (overseenEvaluators O stop fuel) statements)
      (fun _ _ _ => True) m := by
  intro hfits
  obtain ⟨heq, hends⟩ := keeps_interpretFrom hI hO hA fuel statements hfits
  unfold interpret
  rw [heq]
  refine ⟨rfl, ?_⟩
  cases hresult : interpretFrom (watchedEvaluators A stop fuel) statements m with
  | ok _ m' =>
      rw [hresult] at hends
      exact ⟨False.elim, hends.2⟩
  | error stopped m' =>
      rw [hresult] at hends
      obtain ⟨-, k', hle, hfits', -⟩ := hends
      obtain ⟨k'', hle', hfits'', -⟩ := hI.enter hfits' (hI.globals hfits')
      exact ⟨False.elim, k'', hI.trans hle hle', hfits'', trivial⟩

end Account
end TraitScript
