import TraitScript.Proofs.Account.Growth

/-!
# Code that belongs to a frame

Code that is started in a frame opens further frames, one for each block and each loop in it, and
lies in as many of them as there are blocks and loops around it. The functions that it calls, and
the getters that it reads, are other code, which runs elsewhere. Here an evaluation is checked for
this: at every part of the code that belongs to a frame, the frame is as many hops outward as there
are scopes around the part. Functions that are made there are made in the frame that is current, so
the frame they belong to is that many hops away from theirs.
-/

namespace TraitScript.Eval

/-! ### Checking own code -/

/-- A frame lies a number of hops outward from the one that is current. -/
def Lies (frame : FrameId) (depth : Nat) (m : Machine) : Prop :=
  m.frames.ancestor m.current depth = .ok frame

section Checked

variable (frame : FrameId) (stop : Stop)

/-- One step on an expression of own code. What reading a property or `super` runs is other code. -/
def ownEvaluateStep (own other : Evaluators) : Expr → Eval Value
  | .get object name => do
    let object ← own.evaluate object
    getProperty other object name
  | .super id keyword method => getSuper other id keyword method
  | expr => evaluateStep own expr

/-- One step on a statement of own code. What stands in a block or a loop is own code one frame
further in. -/
def ownExecuteStep (own inner : Evaluators) (rounds : Nat) : Stmt → Eval Flow
  | .block statements => do
    let frame ← newFrame (.block statements) (← currentFrame)
    inner.executeBlock statements frame
  | .forLoop initial condition increment body => do
    let frame ← newFrame (.loop (.forLoop initial condition increment body)) (← currentFrame)
    inFrame frame do
      enterLoop inner initial
      forLoop (condition.map inner.evaluate) (increment.map inner.evaluate)
        (inner.execute body) rounds
  | stmt => executeStep own rounds stmt

/-- The evaluators for own code of a depth, which stop where the frame is not that many hops
outward. Calls are other code. -/
noncomputable def ownEvaluators : (fuel depth : Nat) → Evaluators
  | 0, depth =>
    .of (fun _ => watched (fun m _ => Lies frame depth m) stop outOfFuel)
      (fun _ => watched (fun m _ => Lies frame depth m) stop outOfFuel)
      (invoke 0)
  | fuel + 1, depth =>
    .of (fun expr => watched (fun m _ => Lies frame depth m) stop
      (ownEvaluateStep (ownEvaluators fuel depth) (evaluators fuel) expr))
      (fun stmt => watched (fun m _ => Lies frame depth m) stop
        (ownExecuteStep (ownEvaluators fuel depth) (ownEvaluators fuel (depth + 1)) fuel stmt))
      (invoke (fuel + 1))

end Checked

/-! ### Agreeing where the frame lies -/

section Rules

variable {frame : FrameId} {depth : Nat} {α β : Type} {x y : Eval α} {f g : α → Eval β}

/-- A computation that leaves the frame where it lies. -/
def Leaves (frame : FrameId) (depth : Nat) (x : Eval α) : Prop :=
  ∀ m a m', x m = .ok a m' → Lies frame depth m → Lies frame depth m'

/-- Two computations agree where the frame lies so many hops outward. -/
def Agrees (frame : FrameId) (depth : Nat) (x y : Eval α) : Prop :=
  ∀ m, Lies frame depth m → y m = x m

theorem Steady.leaves (hx : Steady x) : Leaves frame depth x := by
  intro m a m' hresult hlies
  obtain ⟨hgrows, hcurrent⟩ := hx.of_ok hresult
  rw [Lies, hcurrent]
  exact hgrows.ancestor hlies

theorem agrees_refl (x : Eval α) : Agrees frame depth x x := fun _ _ => rfl

theorem Agrees.bind (hx : Agrees frame depth x y) (hleaves : Leaves frame depth x)
    (hf : ∀ a, Agrees frame depth (f a) (g a)) :
    Agrees frame depth (x >>= f) (y >>= g) := by
  intro m hlies
  simp only [Bind.bind, EStateM.bind, hx m hlies]
  cases hresult : x m with
  | ok a m' => exact hf a m' (hleaves m a m' hresult hlies)
  | error stop m' => rfl

/-- The same where both start with the same step. -/
theorem Agrees.after (hleaves : Leaves frame depth x) (hf : ∀ a, Agrees frame depth (f a) (g a)) :
    Agrees frame depth (x >>= f) (x >>= g) :=
  (agrees_refl x).bind hleaves hf

/-- What runs in a frame that lies one hop further in. -/
theorem agrees_inFrame {inner : FrameId} {m : Machine}
    (hinner : m.frames.ancestor inner (depth + 1) = .ok frame) (hx : Agrees frame (depth + 1) x y) :
    inFrame inner y m = inFrame inner x m := by
  have hlies : Lies frame (depth + 1) { m with current := inner } := hinner
  simp only [inFrame, hx _ hlies]

/-- Going on in a copy of the frame stays in the same surroundings. -/
theorem leaves_nextIteration : Leaves frame (depth + 1) nextIteration := by
  rintro m _ _ ⟨⟩ hlies
  rw [Lies, FrameStore.ancestor, FrameStore.ancestorFrom] at hlies
  cases haround : m.frames.enclosing? m.current with
  | none =>
      rw [haround] at hlies
      cases hlies
  | some around =>
      rw [haround] at hlies
      have hcopy : (m.frames.snapshot m.current).enclosing? m.frames.size = some around := by
        rw [FrameStore.snapshot, FrameStore.enclosing?_add, if_pos rfl]
        exact haround
      exact FrameStore.ancestor_succ hcopy ((m.frames.grows_add _).ancestorFrom hlies)

end Rules

/-! ### Steps -/

section Steps

variable {frame : FrameId} {depth fuel : Nat} {own inner : Evaluators}

/-- Evaluators that agree with those of a fuel where the frame lies so many hops outward. -/
structure Owns (frame : FrameId) (depth fuel : Nat) (own : Evaluators) : Prop where
  evaluate : ∀ expr, Agrees frame depth (Eval.evaluate fuel expr) (own.evaluate expr)
  execute : ∀ stmt, Agrees frame depth (Eval.execute fuel stmt) (own.execute stmt)
  invoke : own.invoke = Eval.invoke fuel

theorem leaves_evaluate (fuel : Nat) (expr : Expr) : Leaves frame depth (Eval.evaluate fuel expr) :=
  (steady_evaluate fuel expr).leaves

theorem leaves_execute (fuel : Nat) (stmt : Stmt) : Leaves frame depth (Eval.execute fuel stmt) :=
  (steady_execute fuel stmt).leaves

/-- An account of a computation in any machine shows that it leaves frames where they lie. -/
theorem leaves_of_keeps {α : Type} {x y : Eval α}
    {Q : Machine → α → Account.growth.Known → Machine → Prop}
    (h : ∀ k m, Account.growth.Keeps True k x y (Q m) m) : Leaves frame depth x :=
  (steady_of_keeps h).leaves

variable (hown : Owns frame depth fuel own)

include hown

theorem agrees_evaluateAll (exprs : List Expr) :
    Agrees frame depth (evaluateAll (evaluators fuel) exprs) (evaluateAll own exprs) := by
  induction exprs with
  | nil => exact agrees_refl _
  | cons expr rest ih =>
      refine (hown.evaluate expr).bind (leaves_evaluate fuel expr) fun value =>
        ih.bind ?_ fun values => agrees_refl _
      obtain ⟨_, hrelated⟩ := Account.related_growth fuel
      exact leaves_of_keeps fun _ _ => Account.keeps_evaluateAll Account.lawful_growth hrelated

theorem agrees_evaluate? (expr : Option Expr) :
    Agrees frame depth (evaluate? (evaluators fuel) expr) (evaluate? own expr) := by
  cases expr with
  | none => exact agrees_refl _
  | some expr =>
    exact (hown.evaluate expr).bind (leaves_evaluate fuel expr) fun value => agrees_refl _

/-- One step on an expression. -/
theorem agrees_evaluateStep (expr : Expr) :
    Agrees frame depth (evaluateStep (evaluators fuel) expr)
      (ownEvaluateStep own (evaluators fuel) expr) := by
  cases expr with
  | literal _ | function _ | «variable» _ _ | this _ _ | super _ _ _ => exact agrees_refl _
  | group inner => exact hown.evaluate inner
  | unary operator right =>
    exact (hown.evaluate right).bind (leaves_evaluate fuel right) fun value => agrees_refl _
  | binary left operator right =>
      refine (hown.evaluate left).bind (leaves_evaluate fuel left) fun a => ?_
      exact (hown.evaluate right).bind (leaves_evaluate fuel right) fun b => agrees_refl _
  | logical left operator right =>
      refine (hown.evaluate left).bind (leaves_evaluate fuel left) fun value => ?_
      split
      · exact agrees_refl _
      · exact hown.evaluate right
  | conditional condition thenBranch elseBranch =>
      refine (hown.evaluate condition).bind (leaves_evaluate fuel condition) fun value => ?_
      split
      · exact hown.evaluate thenBranch
      · exact hown.evaluate elseBranch
  | assign id name value =>
    exact (hown.evaluate value).bind (leaves_evaluate fuel value) fun v => agrees_refl _
  | call callee paren arguments =>
      refine (hown.evaluate callee).bind (leaves_evaluate fuel callee) fun value => ?_
      obtain ⟨_, hrelated⟩ := Account.related_growth fuel
      refine (agrees_evaluateAll hown arguments).bind ?_ fun values => ?_
      · exact leaves_of_keeps fun _ _ => Account.keeps_evaluateAll Account.lawful_growth hrelated
      · rw [hown.invoke]
        exact agrees_refl _
  | get object name =>
    exact (hown.evaluate object).bind (leaves_evaluate fuel object) fun value => agrees_refl _
  | set object name value =>
      refine (hown.evaluate object).bind (leaves_evaluate fuel object) fun target => ?_
      cases target.holder? with
      | none => exact agrees_refl _
      | some holder =>
        exact (hown.evaluate value).bind (leaves_evaluate fuel value) fun v => agrees_refl _

/-! ### Declarations -/

theorem agrees_evaluateTrait (expr : Expr) :
    Agrees frame depth (evaluateTrait (evaluators fuel) expr) (evaluateTrait own expr) :=
  (hown.evaluate expr).bind (leaves_evaluate fuel expr) fun _ => agrees_refl _

theorem agrees_useTraits (exprs : List Expr) (members : Members) :
    Agrees frame depth (useTraits (evaluators fuel) exprs members)
      (useTraits own exprs members) := by
  obtain ⟨_, hrelated⟩ := Account.related_growth fuel
  induction exprs generalizing members with
  | nil => exact agrees_refl _
  | cons expr rest ih =>
      refine (agrees_evaluateTrait hown expr).bind ?_ fun used => Agrees.after ?_ fun methods =>
        Agrees.after ?_ fun classMethods => ih _
      · exact leaves_of_keeps fun _ _ =>
          Account.keeps_evaluateTrait Account.lawful_growth hrelated expr
      · exact leaves_of_keeps fun _ _ =>
          Account.keeps_mergeTable Account.lawful_growth _ _ used false _ _
      · exact leaves_of_keeps fun _ _ =>
          Account.keeps_mergeTable Account.lawful_growth _ _ used true _ _

theorem agrees_evaluateSuperclass (name : Token) (parent : Option Expr) :
    Agrees frame depth (evaluateSuperclass (evaluators fuel) name parent)
      (evaluateSuperclass own name parent) := by
  cases parent with
  | none => exact agrees_refl _
  | some expr =>
    exact (hown.evaluate expr).bind (leaves_evaluate fuel expr) fun value => agrees_refl _

theorem agrees_declareTrait (name : Token) (body : ClassBody) :
    Agrees frame depth (declareTrait (evaluators fuel) name body) (declareTrait own name body) := by
  rw [declareTrait_eq, declareTrait_eq]
  obtain ⟨_, hrelated⟩ := Account.related_growth fuel
  refine (agrees_useTraits hown body.traits {}).bind ?_ fun members => agrees_refl _
  exact leaves_of_keeps fun _ _ =>
    Account.keeps_useTraits Account.lawful_growth hrelated _ {} (by simp)

theorem agrees_declareClass (name : Token) (parent : Option Expr) (body : ClassBody) :
    Agrees frame depth (declareClass (evaluators fuel) name parent body)
      (declareClass own name parent body) := by
  rw [declareClass_eq, declareClass_eq]
  obtain ⟨_, hrelated⟩ := Account.related_growth fuel
  refine (agrees_evaluateSuperclass hown name parent).bind ?_ fun superclass => ?_
  · exact leaves_of_keeps fun _ _ =>
      Account.keeps_evaluateSuperclass Account.lawful_growth hrelated _ _
  · refine (agrees_useTraits hown body.traits {}).bind ?_ fun members => agrees_refl _
    exact leaves_of_keeps fun _ _ =>
      Account.keeps_useTraits Account.lawful_growth hrelated _ {} (by simp)

/-! ### Loops and blocks -/

theorem agrees_executeAll (statements : List Stmt) :
    Agrees frame depth (executeAll (Eval.execute fuel) statements)
      (executeAll own.execute statements) := by
  induction statements with
  | nil => exact agrees_refl _
  | cons stmt rest ih =>
      refine (hown.execute stmt).bind (leaves_execute fuel stmt) fun flow => ?_
      cases flow with
      | normal => exact ih
      | returning _ | breaking | continuing => exact agrees_refl _

theorem agrees_whileLoop (condition : Expr) (body : Stmt) (rounds : Nat) :
    Agrees frame depth (whileLoop (Eval.evaluate fuel condition) (Eval.execute fuel body) rounds)
      (whileLoop (own.evaluate condition) (own.execute body) rounds) := by
  induction rounds with
  | zero => exact agrees_refl _
  | succ rounds ih =>
      refine (hown.evaluate condition).bind (leaves_evaluate fuel condition) fun value => ?_
      split
      · refine (hown.execute body).bind (leaves_execute fuel body) fun flow => ?_
        cases flow with
        | breaking | returning _ => exact agrees_refl _
        | normal | continuing => exact ih
      · exact agrees_refl _

theorem agrees_holds (condition : Option Expr) :
    Agrees frame depth (holds (condition.map (Eval.evaluate fuel)))
      (holds (condition.map own.evaluate)) := by
  cases condition with
  | none => exact agrees_refl _
  | some condition =>
    exact (hown.evaluate condition).bind (leaves_evaluate fuel condition) fun value => agrees_refl _

theorem agrees_perhaps (part : Option Expr) :
    Agrees frame depth (perhaps (part.map (Eval.evaluate fuel)))
      (perhaps (part.map own.evaluate)) := by
  cases part with
  | none => exact agrees_refl _
  | some part =>
    exact (hown.evaluate part).bind (leaves_evaluate fuel part) fun value => agrees_refl _

theorem agrees_enterLoop (initial : Option Stmt) :
    Agrees frame depth (enterLoop (evaluators fuel) initial) (enterLoop own initial) := by
  cases initial with
  | none => exact agrees_refl _
  | some stmt => exact (hown.execute stmt).bind (leaves_execute fuel stmt) fun flow => agrees_refl _

omit hown in
theorem agrees_forLoop (hinner : Owns frame (depth + 1) fuel inner)
    (condition increment : Option Expr) (body : Stmt) (rounds : Nat) :
    Agrees frame (depth + 1)
      (forLoop (condition.map (Eval.evaluate fuel)) (increment.map (Eval.evaluate fuel))
        (Eval.execute fuel body) rounds)
      (forLoop (condition.map inner.evaluate) (increment.map inner.evaluate)
        (inner.execute body) rounds) := by
  induction rounds with
  | zero => exact agrees_refl _
  | succ rounds ih =>
      refine (agrees_holds hinner condition).bind (steady_holds fuel condition).leaves
        fun truth => ?_
      split
      · refine (hinner.execute body).bind (leaves_execute fuel body) fun flow => ?_
        cases flow with
        | breaking | returning _ => exact agrees_refl _
        | normal | continuing =>
            exact Agrees.after leaves_nextIteration fun _ =>
              (agrees_perhaps hinner increment).bind (steady_perhaps fuel increment).leaves fun _ =>
                ih
      · exact agrees_refl _

omit hown in
/-- A new frame lies one hop further in. -/
theorem agrees_inNewFrame {α : Type} (origin : Origin) {run run' : FrameId → Eval α}
    (hrun : ∀ {inner : FrameId} {m : Machine}, m.frames.ancestor inner (depth + 1) = .ok frame →
      run' inner m = run inner m) :
    Agrees frame depth (do let inner ← newFrame origin (← currentFrame); run inner)
      (do let inner ← newFrame origin (← currentFrame); run' inner) := by
  intro m hlies
  refine hrun
    (m := { m with frames := m.frames.addEmpty (some m.current), origins := m.origins.push origin })
    ?_
  have haround : (m.frames.addEmpty (some m.current)).enclosing? m.frames.size =
      some m.current := by
    rw [FrameStore.addEmpty, FrameStore.enclosing?_add, if_pos rfl]
  exact FrameStore.ancestor_succ haround ((m.frames.grows_add _).ancestor hlies)

/-- One step on a statement. -/
theorem agrees_executeStep (hinner : Owns frame (depth + 1) fuel inner) (rounds : Nat) (stmt : Stmt)
    (hblock : inner.executeBlock = fun statements frame =>
      inFrame frame (executeAll inner.execute statements)) :
    Agrees frame depth (executeStep (evaluators fuel) rounds stmt)
      (ownExecuteStep own inner rounds stmt) := by
  cases stmt with
  | jump _ kind => cases kind <;> exact agrees_refl _
  | function _ => exact agrees_refl _
  | expression value =>
    exact (hown.evaluate value).bind (leaves_evaluate fuel value) fun _ => agrees_refl _
  | print value =>
    exact (hown.evaluate value).bind (leaves_evaluate fuel value) fun _ => agrees_refl _
  | «variable» name initial =>
      obtain ⟨_, hrelated⟩ := Account.related_growth fuel
      refine (agrees_evaluate? hown initial).bind ?_ fun value => agrees_refl _
      exact leaves_of_keeps fun _ _ => Account.keeps_evaluate? Account.lawful_growth hrelated
  | block statements =>
      refine agrees_inNewFrame (.block statements) fun {inside m} hinside => ?_
      rw [hblock]
      exact agrees_inFrame hinside (agrees_executeAll hinner statements)
  | ifElse condition thenBranch elseBranch =>
      refine (hown.evaluate condition).bind (leaves_evaluate fuel condition) fun value => ?_
      split
      · exact hown.execute thenBranch
      · cases elseBranch with
        | none => exact agrees_refl _
        | some branch => exact hown.execute branch
  | whileLoop condition body => exact agrees_whileLoop hown condition body rounds
  | forLoop initial condition increment body =>
      refine agrees_inNewFrame (.loop (.forLoop initial condition increment body))
        fun {inside m} hinside => ?_
      refine agrees_inFrame hinside
        ((agrees_enterLoop hinner initial).bind (steady_enterLoop fuel initial).leaves fun _ => ?_)
      exact agrees_forLoop hinner condition increment body rounds
  | returnValue keyword value =>
      obtain ⟨_, hrelated⟩ := Account.related_growth fuel
      refine (agrees_evaluate? hown value).bind ?_ fun found => agrees_refl _
      exact leaves_of_keeps fun _ _ => Account.keeps_evaluate? Account.lawful_growth hrelated
  | classDecl name parent body => exact agrees_declareClass hown name parent body
  | traitDecl name body => exact agrees_declareTrait hown name body

end Steps

/-! ### Every evaluation -/

theorem Agrees.checked {frame : FrameId} {depth : Nat} {α : Type} {x y : Eval α}
    (h : Agrees frame depth x y) (stop : Stop) :
    Agrees frame depth x (watched (fun m _ => Lies frame depth m) stop y) := by
  intro m hlies
  rw [watched, if_pos hlies, h m hlies]

/-- Own code runs as it does without being checked. -/
theorem owns_ownEvaluators (frame : FrameId) (stop : Stop) (fuel depth : Nat) :
    Owns frame depth fuel (ownEvaluators frame stop fuel depth) := by
  induction fuel generalizing depth with
  | zero =>
    exact ⟨fun _ => (agrees_refl _).checked stop, fun _ => (agrees_refl _).checked stop, rfl⟩
  | succ fuel ih =>
      refine ⟨fun expr => (agrees_evaluateStep (ih depth) expr).checked stop, fun stmt => ?_, rfl⟩
      refine (agrees_executeStep (ih depth) (ih (depth + 1)) fuel stmt ?_).checked stop
      cases fuel <;> rfl

/-- A statement that is executed in a frame belongs to it. -/
theorem execute_own (fuel : Nat) (stop : Stop) (stmt : Stmt) (m : Machine) :
    (ownEvaluators m.current stop fuel 0).execute stmt m = execute fuel stmt m :=
  (owns_ownEvaluators m.current stop fuel 0).execute stmt m rfl

theorem evaluate_own (fuel : Nat) (stop : Stop) (expr : Expr) (m : Machine) :
    (ownEvaluators m.current stop fuel 0).evaluate expr m = evaluate fuel expr m :=
  (owns_ownEvaluators m.current stop fuel 0).evaluate expr m rfl

end TraitScript.Eval
