import TraitScript.Eval.Run
import TraitScript.Proofs.Moved.Machine
import TraitScript.Proofs.Tree.CaptureFree

/-!
# Loops and calls in different frames

Code may do anything in frames that values lead to. In other frames it may only be code that
captures none, so that no value leads there afterwards either. Evaluators move when they do the same
with such code and with corresponding values; then so do the loops and calls that re-enter them.

A loop goes on in a frame of its own in every round. Whether it copies the frame for that, or goes
on in the frame itself, makes no difference to what it does with code that captures nothing.
-/

namespace TraitScript

inductive Flow.Moved (P : FramePairs) : Flow → Flow → Prop
  | normal : Flow.Moved P .normal .normal
  | returning {v v' : Value} (h : v.Moved P v') : Flow.Moved P (.returning v) (.returning v')
  | breaking : Flow.Moved P .breaking .breaking
  | continuing : Flow.Moved P .continuing .continuing

namespace Sight

/-- Code may run here: any code if values may lead here, and otherwise code that captures
nothing. -/
def Allows (S : Sight) (free : Bool) : Prop := S.Open ∨ free = true

variable {S : Sight} {P : FramePairs} {a b : Bool}

theorem Open.widen (h : S.Open) (hle : S.shared ≤ P) : (S.widen hle).Open := hle _ _ h

theorem Allows.widen (h : S.Allows a) (hle : S.shared ≤ P) : (S.widen hle).Allows a :=
  h.imp_left fun hopen => hopen.widen hle

theorem Allows.and (h : S.Allows (a && b)) : S.Allows a ∧ S.Allows b := by
  rcases h with hopen | hfree
  · exact ⟨.inl hopen, .inl hopen⟩
  · obtain ⟨ha, hb⟩ := Bool.and_eq_true_iff.1 hfree
    exact ⟨.inr ha, .inr hb⟩

theorem Allows.open (h : S.Allows false) : S.Open := h.resolve_right Bool.false_ne_true

/-- Code runs in a frame of its own inside those that were there: one that values may lead to, or
one further in than all others. -/
def Round (own : List (FrameId × FrameId)) (free : Bool) (S : Sight) : Prop :=
  (S.own = own ∧ S.Open) ∨ (S.own = (S.left, S.right) :: own ∧ free = true)

/-- Code runs in a frame of its own to which no value leads. -/
def Innermost (own : List (FrameId × FrameId)) (S : Sight) : Prop :=
  S.own = (S.left, S.right) :: own

variable {own : List (FrameId × FrameId)} {free : Bool}

theorem Round.allows (h : S.Round own free) : S.Allows free := h.imp And.right And.right

theorem Round.suffix (h : S.Round own free) : own <:+ S.own := by
  rcases h with ⟨hown, -⟩ | ⟨hown, -⟩
  · exact hown ▸ List.suffix_refl own
  · exact hown ▸ List.suffix_cons _ own

theorem Round.widen (h : S.Round own free) (hle : S.shared ≤ P) : (S.widen hle).Round own free :=
  h.imp (fun h => ⟨h.1, h.2.widen hle⟩) fun h => h

end Sight

namespace Eval

variable {S : Sight} {own : List (FrameId × FrameId)} {α β : Type} {Q : FramePairs → α → β → Prop}

/-- Evaluators that do the same in corresponding frames. -/
structure Evaluators.Moves (E : Evaluators) : Prop where
  evaluate : ∀ {S expr}, Sight.Allows S (Expr.isCaptureFree expr) →
      Matches S (E.evaluate expr) (E.evaluate expr) Value.Moved
  execute : ∀ {S stmt}, Sight.Allows S (Stmt.isCaptureFree stmt) →
      Matches S (E.execute stmt) (E.execute stmt) Flow.Moved
  executeBlock : ∀ statements frame, E.executeBlock statements frame =
      inFrame frame (executeAll E.execute statements)
  invoke : ∀ {S callee callee'} line {arguments arguments'}, Value.Moved S.shared callee callee' →
    List.Forall₂ (Value.Moved S.shared) arguments arguments' →
    Matches S (E.invoke callee line arguments) (E.invoke callee' line arguments') Value.Moved

variable {self : Evaluators}

/-! ### New frames to run code in -/

/-- Runs a computation in a new frame and comes back. -/
def inNewFrame (origin : Origin) (x : Eval α) : Eval α := do
  let frame ← newFrame origin (← currentFrame)
  inFrame frame x

theorem matches_inNewFrame_open (hopen : S.Open) (origin : Origin) {x : Eval α} {y : Eval β}
    (hx : ∀ S' : Sight, S.shared ≤ S'.shared → S'.own = S.own → S'.Open →
      Leads S' S.own (fun _ _ => True) x y Q) :
    Matches S (inNewFrame origin x) (inNewFrame origin y) Q := by
  intro m m' hsees
  have hle := S.shared.le_insert m.frames.size m'.frames.size
  have haround : S.shared m.current m'.current := by
    rw [hsees.left, hsees.right]
    exact hopen
  have hframes := hsees.moved.frames.add_shared (.empty _) (.some haround)
  let inner : Sight :=
    ⟨S.shared.insert m.frames.size m'.frames.size, S.own, m.frames.size, m'.frames.size,
      .inl (.inr ⟨rfl, rfl⟩)⟩
  have hmoved := hsees.moved.withFrames hle hframes (hsees.moved.globals_add _)
    (m.origins.push origin) (m'.origins.push origin)
  exact Leads.inFrame inner (hx inner hle rfl (.inr ⟨rfl, rfl⟩)) ⟨hmoved.moveTo _ _, rfl, rfl⟩ hle
    hsees.left hsees.right

theorem matches_inNewFrame_own (origin : Origin) {x : Eval α} {y : Eval β}
    (hx : ∀ S' : Sight, S.shared ≤ S'.shared → S'.Innermost S.own →
      Leads S' S.own (fun _ _ => True) x y Q) :
    Matches S (inNewFrame origin x) (inNewFrame origin y) Q := by
  intro m m' hsees
  have haround : S.shared.with S.own m.current m'.current := by
    rw [hsees.left, hsees.right]
    exact S.here
  have hframes := hsees.moved.frames.add_own (.empty _) (.some haround)
  let inner : Sight :=
    ⟨S.shared, (m.frames.size, m'.frames.size) :: S.own, m.frames.size, m'.frames.size,
      .inr (List.mem_cons_self ..)⟩
  have hmoved := hsees.moved.withFrames (le_refl _) hframes (hsees.moved.globals_add _)
    (m.origins.push origin) (m'.origins.push origin)
  exact Leads.inFrame inner (hx inner (le_refl _) rfl) ⟨hmoved.moveTo _ _, rfl, rfl⟩ (le_refl _)
    hsees.left hsees.right

theorem matches_inNewFrame {free : Bool} (hfree : S.Allows free) (origin : Origin) {x : Eval α}
    {y : Eval β}
    (hx : ∀ S' : Sight, S.shared ≤ S'.shared → S'.Round S.own free →
      Leads S' S.own (fun _ _ => True) x y Q) :
    Matches S (inNewFrame origin x) (inNewFrame origin y) Q := by
  rcases hfree with hopen | hfree
  · exact matches_inNewFrame_open hopen origin fun S' hle hown hopen' =>
      hx S' hle (.inl ⟨hown, hopen'⟩)
  · exact matches_inNewFrame_own origin fun S' hle hown => hx S' hle (.inr ⟨hown, hfree⟩)

/-! ### Sequences and loops -/

theorem matches_executeAll {execute : Stmt → Eval Flow}
    (hexecute : ∀ {S stmt}, Sight.Allows S (Stmt.isCaptureFree stmt) →
      Matches S (execute stmt) (execute stmt) Flow.Moved)
    {statements : List Stmt} (h : S.Allows (Stmt.areCaptureFree statements)) :
    Matches S (executeAll execute statements) (executeAll execute statements) Flow.Moved := by
  induction statements generalizing S with
  | nil => exact matches_pure .normal
  | cons stmt rest ih =>
      rw [Stmt.areCaptureFree] at h
      refine (hexecute h.and.1).bind fun hle hflow => ?_
      cases hflow with
      | normal => exact ih (h.and.2.widen hle)
      | returning hvalue => exact matches_pure (.returning hvalue)
      | breaking => exact matches_pure .breaking
      | continuing => exact matches_pure .continuing

theorem matches_whileLoop {condition : Eval Value} {body : Eval Flow}
    (hcondition : ∀ {P} (hle : S.shared ≤ P), Matches (S.widen hle) condition condition Value.Moved)
    (hbody : ∀ {P} (hle : S.shared ≤ P), Matches (S.widen hle) body body Flow.Moved)
    (rounds : Nat) :
    Matches S (whileLoop condition body rounds) (whileLoop condition body rounds) Flow.Moved := by
  induction rounds generalizing S with
  | zero => exact matches_throw _
  | succ rounds ih =>
      refine (hcondition (le_refl _)).bind fun hle₁ hv => ?_
      rw [hv.isTruthy_eq]
      split
      · refine (hbody hle₁).bind fun hle₂ hflow => ?_
        have hagain :=
          ih (S := (S.widen hle₁).widen hle₂) (fun hle => hcondition ((hle₁.trans hle₂).trans hle))
          fun hle => hbody ((hle₁.trans hle₂).trans hle)
        cases hflow with
        | breaking => exact matches_pure .normal
        | returning hvalue => exact matches_pure (.returning hvalue)
        | normal | continuing => exact hagain
      · exact matches_pure .normal

theorem matches_holds {condition : Option (Eval Value)}
    (h : ∀ x, condition = some x → Matches S x x Value.Moved) :
    Matches S (holds condition) (holds condition) (fun _ truth truth' => truth' = truth) := by
  cases condition with
  | none => exact matches_pure rfl
  | some x => exact (h x rfl).bind fun _ hv => matches_pure hv.isTruthy_eq

theorem matches_perhaps {part : Option (Eval Value)}
    (h : ∀ x, part = some x → Matches S x x Value.Moved) :
    Matches S (perhaps part) (perhaps part) (fun _ _ _ => True) := by
  cases part with
  | none => exact matches_pure trivial
  | some x => exact (h x rfl).bind fun _ _ => matches_pure trivial

/-- The rounds of a loop that does something between two of them. -/
def loopWith (next : Eval Unit) (condition increment : Option (Eval Value)) (body : Eval Flow) :
    (rounds : Nat) → Eval Flow
  | 0 => outOfFuel
  | rounds + 1 => do
    if ← holds condition then
      match ← body with
      | .breaking => pure .normal
      | .returning value => pure (.returning value)
      | .normal | .continuing =>
        next
        perhaps increment
        loopWith next condition increment body rounds
    else pure .normal

theorem forLoop_eq_loopWith (condition increment : Option (Eval Value)) (body : Eval Flow)
    (rounds : Nat) :
    forLoop condition increment body rounds =
      loopWith nextIteration condition increment body rounds := by
  induction rounds with
  | zero => rfl
  | succ rounds ih =>
      rw [forLoop, ih]
      rfl

/-- Two ways to go on to the next round, for sights of some kind. -/
def Turns (I : Sight → Prop) (next next' : Eval Unit) : Prop :=
  ∀ {S m m'}, I S → Sight.Sees S m m' →
    ∃ S' n n', next m = .ok () n ∧ next' m' = .ok () n' ∧ I S' ∧ S.shared ≤ S'.shared ∧
      Sight.Sees S' n n'

/-- Both runs copy the frame. -/
theorem turns_nextIteration (own : List (FrameId × FrameId)) (free : Bool) :
    Turns (Sight.Round own free) nextIteration nextIteration := by
  intro S m m' hround hsees
  have hframes := hsees.moved.frames
  have hslots := hframes.slots S.here
  have hglobals := hsees.moved.globals_add ⟨m.frames.slots m.current, m.frames.enclosing? m.current⟩
  -- The copies correspond in the way the frames did: values may lead to them, or they take the
  -- place of the innermost frames.
  rcases hround with ⟨hown, hopen⟩ | ⟨hown, hfree⟩
  · have hle := S.shared.le_insert m.frames.size m'.frames.size
    have hcopies := hframes.add_shared hslots (hframes.enclosing hopen)
    rw [← hsees.left, ← hsees.right] at hcopies
    refine ⟨⟨S.shared.insert m.frames.size m'.frames.size, S.own, m.frames.size, m'.frames.size,
      .inl (.inr ⟨rfl, rfl⟩)⟩, _, _, rfl, rfl,
      .inl ⟨hown, .inr ⟨rfl, rfl⟩⟩, hle, ?_, rfl, rfl⟩
    exact (hsees.moved.withFrames hle hcopies hglobals _ _).moveTo _ _
  · rw [hown] at hframes
    have hcopies := (hframes.outward (List.suffix_cons _ _)).add_own hslots
      (hframes.nested (List.suffix_refl _)).2
    rw [← hsees.left, ← hsees.right] at hcopies
    refine ⟨⟨S.shared, (m.frames.size, m'.frames.size) :: own, m.frames.size, m'.frames.size,
      .inr (List.mem_cons_self ..)⟩, _, _, rfl, rfl,
      .inr ⟨rfl, hfree⟩, le_refl _, ?_, rfl, rfl⟩
    exact (hsees.moved.withFrames (le_refl _) hcopies hglobals _ _).moveTo _ _

/-- One run copies the frame, the other stays in it. -/
theorem turns_copy (own : List (FrameId × FrameId)) :
    Turns (Sight.Innermost own) nextIteration (pure ()) := by
  intro S m m' hinner hsees
  have hframes := hsees.moved.frames
  rw [hinner] at hframes
  have hcopy := hframes.copy_left
  rw [← hsees.left] at hcopy
  refine ⟨⟨S.shared, (m.frames.size, S.right) :: own, m.frames.size, S.right,
    .inr (List.mem_cons_self ..)⟩, _, m', rfl, rfl, rfl,
    le_refl _, ?_, rfl, hsees.right⟩
  exact (hsees.moved.withFrames (le_refl _) hcopy (hsees.moved.globals_add _) _ m'.origins).moveTo _
    m'.current

/-- Loops that go on in different ways. -/
theorem leads_loopWith {I : Sight → Prop} {next next' : Eval Unit} (hturns : Turns I next next')
    (hwiden : ∀ {S P} (hle : Sight.shared S ≤ P), I S → I (S.widen hle))
    (hown : ∀ {S}, I S → own <:+ Sight.own S) {condition increment : Option (Eval Value)}
    {body : Eval Flow}
    (hcondition : ∀ {S}, I S → ∀ x, condition = some x → Matches S x x Value.Moved)
    (hincrement : ∀ {S}, I S → ∀ x, increment = some x → Matches S x x Value.Moved)
    (hbody : ∀ {S}, I S → Matches S body body Flow.Moved) (rounds : Nat) (hS : I S) :
    Leads S own (fun _ _ => True) (loopWith next condition increment body rounds)
      (loopWith next' condition increment body rounds) Flow.Moved := by
  induction rounds generalizing S with
  | zero => exact leads_throw (hown hS) trivial _
  | succ rounds ih =>
      -- The rest of a round whose body came to its end, in whatever frames it did so.
      have hagain : ∀ {S}, I S →
          Leads S own (fun _ _ => True)
          (do next; perhaps increment; loopWith next condition increment body rounds)
          (do next'; perhaps increment; loopWith next' condition increment body rounds)
          Flow.Moved := by
        intro S hS m m' hsees
        obtain ⟨S', n, n', hleft, hright, hS', hle, hsees'⟩ := hturns hS hsees
        have hrest := (matches_perhaps (hincrement hS')).then (hown hS') (C := fun _ _ => True)
          trivial fun hle' _ => ih (hwiden hle' hS')
        simp only [Bind.bind, EStateM.bind, hleft, hright]
        exact (hrest n n' hsees').of_grown hle
      refine (matches_holds (hcondition hS)).then (hown hS) trivial fun hle₁ htruth => ?_
      have hS₁ := hwiden hle₁ hS
      rw [htruth]
      split
      · refine (hbody hS₁).then (hown hS₁) trivial fun hle₂ hflow => ?_
        have hS₂ := hwiden hle₂ hS₁
        cases hflow with
        | breaking => exact leads_pure (hown hS₂) trivial .normal
        | returning hvalue => exact leads_pure (hown hS₂) trivial (.returning hvalue)
        | normal | continuing => exact hagain hS₂
      · exact leads_pure (hown hS₁) trivial .normal

/-! ### Calls -/

theorem matches_makeClosure (decl : FunctionDecl) {a b : FrameId} (hab : S.shared a b)
    (isInitializer : Bool) :
    Matches S (makeClosure decl a isInitializer) (makeClosure decl b isInitializer) Closure.Moved :=
  matches_freshId.bind fun hle hid => matches_pure ⟨hid, rfl, rfl, hle _ _ hab⟩

theorem matches_bindReceiver {closure closure' : Closure}
    (hclosure : closure.Moved S.shared closure') {receiver receiver' : Value}
    (hreceiver : receiver.Moved S.shared receiver') :
    Matches S (bindReceiver closure receiver) (bindReceiver closure' receiver') Closure.Moved := by
  refine (matches_newFrame _ _ hclosure.frame).bind fun hle₁ hframe => ?_
  refine (matches_define (.inl hframe) "this" (Value.Moved.mono hle₁ hreceiver)).bind
    fun hle₂ _ => ?_
  exact matches_freshId.bind fun hle₃ hid =>
    matches_pure ⟨hid, hclosure.decl, hclosure.isInitializer, hle₃ _ _ (hle₂ _ _ hframe)⟩

theorem matches_defineParams {a b : FrameId} (hab : S.shared a b) (params : List Token)
    {arguments arguments' : List Value}
    (harguments : List.Forall₂ (Value.Moved S.shared) arguments arguments') :
    Matches S (defineParams a params arguments) (defineParams b params arguments')
      (fun _ _ _ => True) := by
  induction params generalizing S arguments arguments' with
  | nil => exact matches_pure trivial
  | cons param params ih =>
      cases harguments with
      | nil => exact matches_pure trivial
      | cons hargument harguments =>
          refine (matches_define (.inl hab) param.lexeme hargument).bind fun hle _ => ?_
          exact ih (hle _ _ hab) (Value.Moved.mono_all hle harguments)

theorem matches_callResult {closure closure' : Closure} (hclosure : closure.Moved S.shared closure')
    {flow flow' : Flow} (hflow : flow.Moved S.shared flow') :
    Matches S (callResult closure flow) (callResult closure' flow') Value.Moved := by
  unfold callResult
  rw [hclosure.isInitializer]
  split
  · refine (matches_readAt (.inl hclosure.frame) 0 "this").bind fun _ hfound => ?_
    cases hfound with
    | ok hvalue => exact matches_pure hvalue
    | error error => exact matches_throw _
  · cases hflow with
    | returning hvalue => exact matches_pure hvalue
    | normal => exact matches_pure .nil
    | breaking | continuing => exact matches_fault _

theorem matches_callClosure (hself : self.Moves) {closure closure' : Closure}
    (hclosure : closure.Moved S.shared closure') {arguments arguments' : List Value}
    (harguments : List.Forall₂ (Value.Moved S.shared) arguments arguments') :
    Matches S (callClosure self closure arguments)
      (callClosure self closure' arguments') Value.Moved := by
  unfold callClosure
  rw [hclosure.decl]
  refine (matches_newFrame _ _ hclosure.frame).bind fun hle₁ hframe => ?_
  refine (matches_defineParams hframe _ (Value.Moved.mono_all hle₁ harguments)).bind
    fun hle₂ _ => ?_
  rw [hself.executeBlock, hself.executeBlock]
  -- The body runs in a frame that values may lead to, so it may be any code.
  have hinside := hle₂ _ _ hframe
  refine (Leads.inFrames (Q := Flow.Moved) (.inl hinside) ?_).bind fun hle₃ hflow => ?_
  · refine Matches.loose ?_ (List.suffix_refl _)
    exact matches_executeAll hself.execute (.inl hinside)
  · exact matches_callResult (hclosure.mono ((hle₁.trans hle₂).trans hle₃)) hflow

theorem matches_checkArity (line expected got : Nat) :
    Matches S (checkArity line expected got) (checkArity line expected got)
      (fun _ _ _ => True) := by
  unfold checkArity
  split
  · exact matches_pure trivial
  · exact matches_raise _ _

theorem matches_construct (hself : self.Moves) {definition definition' : Class}
    (hdefinition : definition.Moved S.shared definition') {arguments arguments' : List Value}
    (harguments : List.Forall₂ (Value.Moved S.shared) arguments arguments') :
    Matches S (construct self definition arguments)
      (construct self definition' arguments') Value.Moved := by
  refine matches_newHolder.bind fun {P _ id} hle₁ hid => ?_
  subst hid
  have hobject : Value.Moved P (.object ⟨id, definition⟩) (.object ⟨id, definition'⟩) :=
    .object id (Class.Moved.mono hle₁ hdefinition)
  unfold Class.initializer?
  rcases rel_cases ((Class.Moved.mono hle₁ hdefinition).findMethod initializerName) with
    ⟨hleft, hright⟩ | ⟨method, method', hleft, hright, hmethod⟩
  · rw [hleft, hright]
    exact matches_pure hobject
  · rw [hleft, hright]
    refine (matches_bindReceiver hmethod hobject).bind fun hle₂ hbound => ?_
    refine (matches_callClosure hself hbound
      (Value.Moved.mono_all (hle₁.trans hle₂) harguments)).bind fun hle₃ _ => ?_
    exact matches_pure (Value.Moved.mono (hle₂.trans hle₃) hobject)

theorem matches_perform (hself : self.Moves) {P : FramePairs} {action action' : Action}
    (h : Action.Moved P action action') (hP : P ≤ S.shared) :
    Matches S (perform self action) (perform self action') Value.Moved := by
  induction h generalizing S with
  | done h => exact matches_pure (Value.Moved.mono hP h)
  | fail cause => exact matches_raise _ cause
  | write text _ ih => exact (matches_write text).bind fun hle _ => ih (hP.trans hle)
  | readLine _ ih =>
      refine matches_readLine.bind fun hle heq => ?_
      subst heq
      exact ih _ (hP.trans hle)
  | readClock _ ih =>
      refine matches_readClock.bind fun hle heq => ?_
      subst heq
      exact ih _ (hP.trans hle)
  | pick low high _ ih =>
      refine (matches_pick low high).bind fun hle heq => ?_
      subst heq
      exact ih _ (hP.trans hle)
  | call line hcallee harguments _ ih =>
      refine (hself.invoke line (Value.Moved.mono hP hcallee)
        (Value.Moved.mono_all hP harguments)).bind fun hle hvalue => ?_
      exact ih _ (hP.trans hle) _ _ hvalue (le_refl _)

theorem matches_invokeStep (hself : self.Moves) {callee callee' : Value} (line : Nat)
    {arguments arguments' : List Value} (hcallee : callee.Moved S.shared callee')
    (harguments : List.Forall₂ (Value.Moved S.shared) arguments arguments') :
    Matches S (invokeStep self callee line arguments)
      (invokeStep self callee' line arguments') Value.Moved := by
  have hlength := harguments.length_eq
  cases hcallee with
  | function hclosure =>
      simp only [invokeStep]
      rw [hclosure.resembles.arity, ← hlength]
      refine (matches_checkArity _ _ _).bind fun hle _ => ?_
      exact matches_callClosure hself (hclosure.mono hle) (Value.Moved.mono_all hle harguments)
  | native ref =>
      simp only [invokeStep]
      rw [← hlength]
      refine (matches_checkArity _ _ _).bind fun hle _ => ?_
      exact (matches_nativeAction ref (Value.Moved.mono_all hle harguments)).bind fun _ haction =>
        matches_perform hself haction (le_refl _)
  | classValue hdefinition =>
      simp only [invokeStep]
      rw [hdefinition.arity_eq Closure.Moved.resembles, ← hlength]
      refine (matches_checkArity _ _ _).bind fun hle _ => ?_
      exact matches_construct hself (Class.Moved.mono hle hdefinition)
        (Value.Moved.mono_all hle harguments)
  | nil | bool | number | string | object | traitValue => exact matches_raise _ _

end Eval
end TraitScript
