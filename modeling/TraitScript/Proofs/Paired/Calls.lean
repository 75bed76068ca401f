import TraitScript.Eval.Run
import TraitScript.Proofs.Paired.Machine

/-!
# Loops and calls of two runs

Evaluators agree when they do the same with trees that are alike, with corresponding callees and
with corresponding arguments. Then so do the loops and calls that re-enter them.
-/

namespace TraitScript

variable {P : Pairing} {L L' : Layout} {marks inner : List Bool}

inductive Flow.Alike (P : Pairing) (L : Layout) : Flow → Flow → Prop
  | normal : Flow.Alike P L .normal .normal
  | returning {v v' : Value} (h : v.Alike P L v') : Flow.Alike P L (.returning v) (.returning v')
  | breaking : Flow.Alike P L .breaking .breaking
  | continuing : Flow.Alike P L .continuing .continuing

theorem FunctionDecl.Alike.params {marks : List Bool} {decl decl' : FunctionDecl}
    (h : FunctionDecl.Alike P.trees marks decl decl') :
    ∃ mark, List.Forall₂ (P.trees.declared mark) decl.params decl'.params ∧
      Stmt.AlikeAll P.trees (mark :: marks) decl.body decl'.body := by
  cases h with
  | intro mark _ hparams hbody => exact ⟨mark, hparams, hbody⟩

namespace Eval

/-- Evaluators that do the same with what is alike. -/
structure Evaluators.Agree (P : Pairing) (E E' : Evaluators) : Prop where
  evaluate : ∀ {L marks e e'}, Expr.Alike P.trees marks e e' →
      Eval.Agree P L marks (E.evaluate e) (E'.evaluate e') (Value.Alike P)
  execute : ∀ {L marks stmt stmt'}, Stmt.Alike P.trees marks stmt stmt' →
    Eval.Agree P L marks (E.execute stmt) (E'.execute stmt') (Flow.Alike P)
  executeBlock : ∀ {L marks inner statements statements'} {frame : FrameId},
      Stmt.AlikeAll P.trees inner statements statements' →
    Layout.Chain L inner frame →
    Eval.Agree P L marks (E.executeBlock statements frame) (E'.executeBlock statements' frame)
    (Flow.Alike P)
  invoke : ∀ {L marks callee callee' line line' arguments arguments'}, callee.Alike P L callee' →
      P.lines line line' →
    List.Forall₂ (Value.Alike P L) arguments arguments' →
    Eval.Agree P L marks (E.invoke callee line arguments) (E'.invoke callee' line' arguments')
    (Value.Alike P)

variable {self self' : Evaluators}

/-! ### Sequences and loops -/

theorem agree_executeAll {execute execute' : Stmt → Eval Flow}
    (hexecute : ∀ {L marks stmt stmt'}, Stmt.Alike P.trees marks stmt stmt' →
      Agree P L marks (execute stmt) (execute' stmt') (Flow.Alike P))
    {statements statements' : List Stmt} (h : Stmt.AlikeAll P.trees marks statements statements') :
    Agree P L marks (executeAll execute statements) (executeAll execute' statements')
      (Flow.Alike P) := by
  induction statements generalizing statements' L with
  | nil =>
      cases h
      exact agree_pure .normal
  | cons stmt rest ih =>
      cases h with
      | cons hstmt hrest =>
          apply (hexecute hstmt).bind
          intro L' flow flow' _ hflow
          cases hflow with
          | normal => exact ih hrest
          | returning hvalue => exact agree_pure (.returning hvalue)
          | breaking => exact agree_pure .breaking
          | continuing => exact agree_pure .continuing

theorem agree_whileLoop {condition condition' : Eval Value} {body body' : Eval Flow}
    (hcondition : ∀ {L}, Agree P L marks condition condition' (Value.Alike P))
    (hbody : ∀ {L}, Agree P L marks body body' (Flow.Alike P)) (rounds : Nat) :
    Agree P L marks (whileLoop condition body rounds) (whileLoop condition' body' rounds)
      (Flow.Alike P) := by
  induction rounds generalizing L with
  | zero => exact agree_outOfFuel
  | succ rounds ih =>
      apply hcondition.bind
      intro L₁ v v' _ hv
      rw [hv.isTruthy_eq]
      split
      · apply hbody.bind
        intro L₂ flow flow' _ hflow
        cases hflow with
        | breaking => exact agree_pure .normal
        | returning hvalue => exact agree_pure (.returning hvalue)
        | normal => exact ih
        | continuing => exact ih
      · exact agree_pure .normal

/-- Optional parts of a loop that do the same. -/
def AgreeOn (P : Pairing) (marks : List Bool) (part part' : Option (Eval Value)) : Prop :=
  Option.Rel (fun x y => ∀ {L}, Agree P L marks x y (Value.Alike P)) part part'

theorem agree_holds {condition condition' : Option (Eval Value)}
    (h : AgreeOn P marks condition condition') :
    Agree P L marks (holds condition) (holds condition')
      (fun _ truth truth' => truth' = truth) := by
  cases h with
  | none => exact agree_pure rfl
  | some hcondition =>
      apply hcondition.bind
      intro L' v v' _ hv
      exact agree_pure hv.isTruthy_eq

theorem agree_perhaps {part part' : Option (Eval Value)} (h : AgreeOn P marks part part') :
    Agree P L marks (perhaps part) (perhaps part') (fun _ _ _ => True) := by
  cases h with
  | none => exact agree_pure trivial
  | some hpart => exact hpart.bind fun _ _ => agree_pure trivial

theorem agree_forLoop {mark : Bool}
    {condition condition' increment increment' : Option (Eval Value)} {body body' : Eval Flow}
    (hcondition : AgreeOn P (mark :: marks) condition condition')
    (hincrement : AgreeOn P (mark :: marks) increment increment')
    (hbody : ∀ {L}, Agree P L (mark :: marks) body body' (Flow.Alike P)) (rounds : Nat) :
    Agree P L (mark :: marks) (forLoop condition increment body rounds)
      (forLoop condition' increment' body' rounds) (Flow.Alike P) := by
  induction rounds generalizing L with
  | zero => exact agree_outOfFuel
  | succ rounds ih =>
      have hnext : ∀ {L}, Agree P L (mark :: marks)
          (do nextIteration; perhaps increment; forLoop condition increment body rounds)
          (do nextIteration; perhaps increment'; forLoop condition' increment' body' rounds)
          (Flow.Alike P) :=
        agree_nextIteration.bind fun _ _ => (agree_perhaps hincrement).bind fun _ _ => ih
      apply (agree_holds hcondition).bind
      rintro L₁ _ truth _ rfl
      split
      · apply hbody.bind
        intro L₂ flow flow' _ hflow
        cases hflow with
        | breaking => exact agree_pure .normal
        | returning hvalue => exact agree_pure (.returning hvalue)
        | normal => exact hnext
        | continuing => exact hnext
      · exact agree_pure .normal

/-! ### Calls -/

theorem agree_makeClosure (between : List Bool) {decl decl' : FunctionDecl} {frame : FrameId}
    (hframe : L.Chain inner frame)
    (hdecl : FunctionDecl.Alike P.trees (between ++ inner) decl decl') (isInitializer : Bool) :
    Agree P L marks (makeClosure decl frame isInitializer) (makeClosure decl' frame isInitializer)
      (fun L' => Closure.Alike P L' between) := by
  apply agree_freshId.bind
  rintro L' _ id hle rfl
  exact agree_pure ⟨rfl, rfl, rfl, inner, hframe.mono hle, hdecl⟩

/-- Binding the receiver adds the frame that was still to come. -/
theorem agree_bindReceiver {closure closure' : Closure}
    (hclosure : closure.Alike P L [false] closure') {receiver receiver' : Value}
    (hreceiver : receiver.Alike P L receiver') :
    Agree P L marks (bindReceiver closure receiver) (bindReceiver closure' receiver')
      (fun L' => Closure.Alike P L' []) := by
  obtain ⟨inner, hframe, hcode⟩ := hclosure.code
  unfold bindReceiver
  rw [hclosure.frame]
  apply (agree_newFrame false _ _ hframe).bind
  rintro L₁ _ frame hle₁ ⟨rfl, hbound⟩
  apply (agree_define hbound (P.rename_this _).symm (hreceiver.mono hle₁)).bind
  rintro L₂ _ _ hle₂ -
  apply agree_freshId.bind
  rintro L₃ _ id hle₃ rfl
  exact agree_pure ⟨rfl, rfl, hclosure.isInitializer, false :: inner,
    hbound.mono (hle₂.trans hle₃), hcode⟩

theorem agree_defineParams {mark : Bool} {frame : FrameId} {params params' : List Token}
    {arguments arguments' : List Value} (hframe : L.Chain (mark :: inner) frame)
    (hparams : List.Forall₂ (P.trees.declared mark) params params')
    (harguments : List.Forall₂ (Value.Alike P L) arguments arguments') :
    Agree P L marks (defineParams frame params arguments) (defineParams frame params' arguments')
      (fun _ _ _ => True) := by
  induction hparams generalizing arguments arguments' L with
  | nil => exact agree_pure trivial
  | cons hparam _ ih =>
      cases harguments with
      | nil => exact agree_pure trivial
      | cons hargument harguments =>
          apply (agree_define hframe (P.of_declared hparam) hargument).bind
          rintro L' _ _ hle -
          exact ih (hframe.mono hle) (harguments.imp fun _ _ hvalue => hvalue.mono hle)

theorem agree_callResult {closure closure' : Closure} (hclosure : closure.Alike P L [] closure')
    {flow flow' : Flow} (hflow : flow.Alike P L flow') :
    Agree P L marks (callResult closure flow) (callResult closure' flow') (Value.Alike P) := by
  obtain ⟨inner, hframe, -⟩ := hclosure.code
  unfold callResult
  rw [hclosure.isInitializer, hclosure.frame]
  split
  · apply (agree_readAt hframe 0 P.rename_this P.said_this).bind
    intro L' found found' _ hfound
    cases hfound with
    | ok hvalue => exact agree_pure hvalue
    | error herror => exact agree_throw (herror.stop .none)
  · cases hflow with
    | returning hvalue => exact agree_pure hvalue
    | normal => exact agree_pure .nil
    | breaking => exact agree_fault _
    | continuing => exact agree_fault _

theorem agree_callClosure (hself : self.Agree P self') {closure closure' : Closure}
    (hclosure : closure.Alike P L [] closure') {arguments arguments' : List Value}
    (harguments : List.Forall₂ (Value.Alike P L) arguments arguments') :
    Agree P L marks (callClosure self closure arguments) (callClosure self' closure' arguments')
      (Value.Alike P) := by
  obtain ⟨inner, hframe, hcode⟩ := hclosure.code
  obtain ⟨mark, hparams, hbody⟩ := hcode.params
  unfold callClosure
  rw [hclosure.frame]
  apply (agree_newFrame mark _ _ hframe).bind
  rintro L₁ _ frame hle₁ ⟨rfl, hinside⟩
  apply (agree_defineParams hinside hparams
    (harguments.imp fun _ _ hvalue => hvalue.mono hle₁)).bind
  rintro L₂ _ _ hle₂ -
  apply (hself.executeBlock hbody (hinside.mono hle₂)).bind
  intro L₃ flow flow' hle₃ hflow
  exact agree_callResult (hclosure.mono ((hle₁.trans hle₂).trans hle₃)) hflow

theorem agree_checkArity {line line' : Nat} (hline : P.lines line line') (expected got : Nat) :
    Agree P L marks (checkArity line expected got) (checkArity line' expected got)
      (fun _ _ _ => True) := by
  unfold checkArity
  split
  · exact agree_pure trivial
  · exact agree_raise (.some hline) _

theorem agree_construct (hself : self.Agree P self') {definition definition' : Class}
    (hdefinition : definition.Alike P L definition') {arguments arguments' : List Value}
    (harguments : List.Forall₂ (Value.Alike P L) arguments arguments') :
    Agree P L marks (construct self definition arguments) (construct self' definition' arguments')
      (Value.Alike P) := by
  apply agree_newHolder.bind
  rintro L₁ _ id hle₁ rfl
  have hobject := Value.Alike.object id (hdefinition.mono hle₁)
  unfold Class.initializer?
  rcases rel_cases ((hdefinition.mono hle₁).findMethod initializerName) with
    ⟨hleft, hright⟩ | ⟨method, method', hleft, hright, hmethod⟩
  · rw [hleft, hright]
    exact agree_pure hobject
  · rw [hleft, hright]
    apply (agree_bindReceiver hmethod hobject).bind
    intro L₂ bound bound' hle₂ hbound
    apply (agree_callClosure hself hbound
      (harguments.imp fun _ _ hvalue => hvalue.mono (hle₁.trans hle₂))).bind
    intro L₃ _ _ hle₃ _
    exact agree_pure (hobject.mono (hle₂.trans hle₃))

theorem agree_perform (action : Action) (hplain : action.Plain) :
    Agree P L marks (perform self action) (perform self' action) (Value.Alike P) := by
  induction action generalizing L with
  | done value => exact agree_pure (Value.alike_of_data? hplain)
  | fail cause => exact agree_raise .none cause
  | write text next ih => exact (agree_write text).bind fun _ _ => ih hplain
  | readLine next ih =>
      apply agree_readLine.bind
      rintro L' _ line _ rfl
      exact ih line (hplain line)
  | readClock next ih =>
      apply agree_readClock.bind
      rintro L' _ seconds _ rfl
      exact ih seconds (hplain seconds)
  | pick low high next ih =>
      apply (agree_pick low high).bind
      rintro L' _ n _ rfl
      exact ih n (hplain n)
  | call => exact hplain.elim

theorem agree_invokeStep (hself : self.Agree P self') {callee callee' : Value} {line line' : Nat}
    {arguments arguments' : List Value} (hcallee : callee.Alike P L callee')
    (hline : P.lines line line')
    (harguments : List.Forall₂ (Value.Alike P L) arguments arguments') :
    Agree P L marks (invokeStep self callee line arguments)
      (invokeStep self' callee' line' arguments') (Value.Alike P) := by
  have hlength := harguments.length_eq
  cases hcallee with
  | function hclosure =>
      simp only [invokeStep]
      rw [hclosure.arity_eq, ← hlength]
      apply (agree_checkArity hline _ _).bind
      rintro L' _ _ hle -
      exact agree_callClosure hself (hclosure.mono hle)
        (harguments.imp fun _ _ hvalue => hvalue.mono hle)
  | native ref =>
      simp only [invokeStep]
      rw [← hlength]
      apply (agree_checkArity hline _ _).bind
      rintro L' _ _ hle -
      apply (agree_nativeAction ref (harguments.imp fun _ _ hvalue => hvalue.mono hle)).bind
      rintro L'' _ action _ ⟨rfl, hplain⟩
      exact agree_perform action hplain
  | classValue hdefinition =>
      simp only [invokeStep]
      rw [hdefinition.arity_eq, ← hlength]
      apply (agree_checkArity hline _ _).bind
      rintro L' _ _ hle -
      exact agree_construct hself (hdefinition.mono hle)
        (harguments.imp fun _ _ hvalue => hvalue.mono hle)
  | nil => exact agree_raise (.some hline) _
  | bool => exact agree_raise (.some hline) _
  | number => exact agree_raise (.some hline) _
  | string => exact agree_raise (.some hline) _
  | object => exact agree_raise (.some hline) _
  | traitValue => exact agree_raise (.some hline) _

end Eval
end TraitScript
