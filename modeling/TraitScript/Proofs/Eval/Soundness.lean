import TraitScript.Proofs.Eval.Classes

/-!
# Running keeps machines sound

Every step on a tree that the regime allows, one case for each form of expression and statement;
then, by induction on the fuel, every evaluation. A watch whose conditions follow from what a regime
knows of each evaluation is never violated, in programs that the regime allows.
-/

namespace TraitScript

/-! ### Operators -/

namespace Operator

theorem plain_of_unary {operator : Token.Kind} {right result : Value}
    (h : unary operator right = .ok result) : result.IsPlain := by
  unfold unary at h
  split at h
  · split at h <;> cases h
    trivial
  · cases h
    trivial
  · cases h

theorem plain_of_ordered {left right result : Value} {test : Ordering → Bool}
    (h : ordered left right test = .ok result) :
    result.IsPlain := by
  unfold ordered at h
  split at h <;> cases h
  trivial

theorem plain_of_arithmetic {left right result : Value} {operation : Float → Float → Result}
    (hoperation : ∀ {a b v}, operation a b = .ok v → v.IsPlain)
    (h : arithmetic left right operation = .ok result) : result.IsPlain := by
  unfold arithmetic at h
  split at h
  · exact hoperation h
  · cases h

theorem plain_of_add {left right result : Value} (h : add left right = .ok result) :
    result.IsPlain := by
  unfold add at h
  split at h <;> cases h <;> trivial

theorem plain_of_divide {a b : Float} {result : Value} (h : divide a b = .ok result) :
    result.IsPlain := by
  unfold divide at h
  split at h <;> cases h
  trivial

/-- Operators yield plain values, and the comma yields its right side. -/
theorem plain_or_right_of_binary {operator : Token.Kind} {left right result : Value}
    (h : binary operator left right = .ok result) :
    result.IsPlain ∨ result = right := by
  have hsubtract : ∀ {a b : Float} {v : Value}, (Except.ok (Value.number (a - b)) : Result) =
      .ok v → v.IsPlain := by
    rintro a b v ⟨⟩
    trivial
  have hmultiply : ∀ {a b : Float} {v : Value}, (Except.ok (Value.number (a * b)) : Result) =
      .ok v → v.IsPlain := by
    rintro a b v ⟨⟩
    trivial
  unfold binary at h
  split at h
  case h_1 =>
    cases h
    exact .inr rfl
  case h_2 => exact .inl (plain_of_add h)
  case h_3 => exact .inl (plain_of_arithmetic hsubtract h)
  case h_4 => exact .inl (plain_of_arithmetic hmultiply h)
  case h_5 => exact .inl (plain_of_arithmetic plain_of_divide h)
  case h_6 | h_7 | h_8 | h_9 => exact .inl (plain_of_ordered h)
  case h_10 | h_11 =>
    cases h
    exact .inl trivial
  case h_12 => cases h

end Operator

namespace Eval

variable {R : Regime} {sites : List Site} {m : Machine} {self watching : Evaluators}

theorem holds_applied (operator : Token) {result : Operator.Result}
    (h : ∀ v, result = .ok v → v.Sound R m) :
    Holds R sites (applied operator result) (applied operator result)
      (fun v m' => v.Sound R m') m := by
  cases result with
  | ok value => exact holds_pure value fun _ => h value rfl
  | error cause => exact holds_raise _ _

/-! ### Expressions -/

theorem holds_evaluateAll (hself : Related R self watching) {p : Place} {exprs : List Expr}
    (hallows : R.Allows (Expr.usesAll exprs p)) :
    Holds R p.sites (evaluateAll self exprs) (evaluateAll watching exprs)
      (fun vs m' => ∀ v ∈ vs, v.Sound R m') m := by
  induction exprs generalizing m with
  | nil => exact holds_pure _ fun _ => by simp
  | cons expr rest ih =>
      rw [Expr.usesAll, Regime.allows_append] at hallows
      refine (hself.evaluate hallows.1).bind fun value m₁ _ hvalue =>
        (ih hallows.2).bind fun values m₂ hext₂ hvalues => ?_
      refine holds_pure _ fun _ v hv => ?_
      rcases List.mem_cons.1 hv with rfl | hrest
      · exact hvalue.mono (.refl R) hext₂
      · exact hvalues v hrest

theorem holds_evaluate? (hself : Related R self watching) {p : Place} {expr : Option Expr}
    (hallows : R.Allows (Expr.uses? expr p)) :
    Holds R p.sites (evaluate? self expr) (evaluate? watching expr)
      (fun found m' => ∀ v, found = some v → v.Sound R m') m := by
  cases expr with
  | none => exact holds_pure none fun _ => by simp
  | some expr =>
      rw [Expr.uses?] at hallows
      refine (hself.evaluate hallows).bind fun value m' _ hvalue =>
        holds_pure (some value) fun _ v hv => ?_
      rw [← Option.some.inj hv]
      exact hvalue

theorem holds_function {p : Place} {kind : Resolve.FunctionKind} (hkind : kind ≠ .none)
    {decl : FunctionDecl} (hallows : R.Allows (decl.uses kind p)) {frame : FrameId}
    (hframe : m.Linked frame p.sites) :
    Holds R sites (makeClosure decl frame false) (makeClosure decl frame false)
      (fun closure m' => closure.Bound R m') m := by
  refine (holds_makeClosure decl frame false).mono fun closure m' hext _ hclosure => ?_
  obtain ⟨hdecl, hin, hplain⟩ := hclosure
  refine ⟨⟨p, kind, hkind, by rw [hdecl]; exact hallows, by rw [hin]; exact hframe.mono hext⟩,
    fun hinitializer => ?_⟩
  rw [hplain] at hinitializer
  cases hinitializer

theorem holds_evaluateStep (hself : Related R self watching) {p : Place} {expr : Expr}
    (hallows : R.Allows (expr.uses p)) :
    Holds R p.sites (evaluateStep self expr) (evaluateStep watching expr)
      (fun v m' => v.Sound R m') m := by
  cases expr with
  | literal value => exact holds_pure _ fun _ => by cases value <;> trivial
  | group inner => exact hself.evaluate hallows
  | unary operator right =>
      rw [Expr.uses] at hallows
      refine (hself.evaluate hallows).bind fun value m' _ _ => holds_applied operator fun v hv => ?_
      exact (Operator.plain_of_unary hv).sound R m'
  | binary left operator right =>
      rw [Expr.uses, Regime.allows_append] at hallows
      refine (hself.evaluate hallows.1).bind fun a m₁ _ _ =>
        (hself.evaluate hallows.2).bind fun b m₂ _ hb => ?_
      refine holds_applied operator fun v hv => ?_
      rcases Operator.plain_or_right_of_binary hv with hplain | rfl
      · exact hplain.sound R m₂
      · exact hb
  | logical left operator right =>
      rw [Expr.uses, Regime.allows_append] at hallows
      refine (hself.evaluate hallows.1).bind fun value m' _ hvalue => ?_
      split
      · exact holds_pure value fun _ => hvalue
      · exact hself.evaluate hallows.2
  | conditional condition thenBranch elseBranch =>
      simp only [Expr.uses, Regime.allows_append] at hallows
      refine (hself.evaluate hallows.1.1).bind fun value m' _ _ => ?_
      split
      · exact hself.evaluate hallows.1.2
      · exact hself.evaluate hallows.2
  | «variable» id name =>
      rw [Expr.uses, Regime.allows_cons] at hallows
      exact holds_readVariable hallows.1 rfl
  | assign id name value =>
      simp only [Expr.uses, Regime.allows_append, Regime.allows_cons] at hallows
      refine (hself.evaluate hallows.1).bind fun v m₁ _ hv =>
        (holds_writeVariable hallows.2.1 hv).bind fun _ m₂ hext₂ _ => ?_
      exact holds_pure v fun _ => hv.mono (.refl R) hext₂
  | call callee paren arguments =>
      rw [Expr.uses, Regime.allows_append] at hallows
      refine (hself.evaluate hallows.1).bind fun f m₁ _ hf =>
        (holds_evaluateAll hself hallows.2).bind fun vs m₂ hext₂ hvs => ?_
      exact hself.invoke (hf.mono (.refl R) hext₂) hvs
  | function decl =>
      rw [Expr.uses] at hallows
      refine holds_currentFrame.bind fun frame m₁ _ hframe =>
        (holds_function (by simp) hallows hframe).bind fun closure m₂ _ h => ?_
      exact holds_pure _ fun _ => h
  | get object name =>
      rw [Expr.uses] at hallows
      exact (hself.evaluate hallows).bind fun v m' _ hv => holds_getProperty hself name hv
  | set object name value =>
      rw [Expr.uses, Regime.allows_append] at hallows
      refine (hself.evaluate hallows.2).bind fun target m₁ _ _ => ?_
      cases target.holder? with
      | none => exact holds_raise _ _
      | some holder =>
          refine (hself.evaluate hallows.1).bind fun v m₂ _ hv =>
            (holds_setField hv).bind fun _ m₃ hext₃ _ => ?_
          exact holds_pure v fun _ => hv.mono (.refl R) hext₃
  | this id keyword =>
      rw [Expr.uses, Regime.allows_cons] at hallows
      exact holds_readVariable hallows.1 rfl
  | super id keyword method =>
      rw [Expr.uses, Regime.allows_cons] at hallows
      exact holds_getSuper hself method hallows.1

/-! ### Statements -/

theorem holds_introduce {name : Token} {value : Option Value}
    (hname : R.fromText → Ordinary name.lexeme) (hvalue : ∀ v, value = some v → v.Sound R m) :
    Holds R sites (introduce name value) (introduce name value) (fun _ _ => True) m := by
  cases value with
  | none => exact holds_currentFrame.bind fun frame m' _ _ => holds_declare hname
  | some v =>
    exact holds_currentFrame.bind fun frame m' hext _ =>
      holds_define ((hvalue v rfl).mono (.refl R) hext) hname

theorem holds_declareFunction {p : Place} {decl : FunctionDecl}
    (hallows : R.Allows ((Stmt.function decl).uses p)) :
    Holds R p.sites (declareFunction decl) (declareFunction decl)
      (fun flow _ => flow = .normal) m := by
  rw [Stmt.uses, Regime.allows_append] at hallows
  obtain ⟨hname, hbody⟩ := hallows
  refine holds_currentFrame.bind fun frame m₁ _ hframe => ?_
  rw [← Place.sites_declare? decl.name p] at hframe
  refine (holds_function (by simp) hbody hframe).bind fun closure m₂ _ hclosure => ?_
  cases hdecl : decl.name with
  | none =>
      have hskip : Holds R p.sites (pure ()) (pure ()) (fun _ _ => True) m₂ :=
        holds_pure () fun _ => trivial
      exact hskip.bind fun _ _ _ _ => holds_pure Flow.normal fun _ => rfl
  | some name =>
      have hlegal : R.legal p (.declare name) := hname (p, .declare name) (by simp [hdecl])
      refine (holds_define ?_ fun htext => R.declare_ordinary htext hlegal).bind fun _ _ _ _ =>
        holds_pure Flow.normal fun _ => rfl
      exact hclosure

theorem holds_enterLoop (hself : Related R self watching) {p : Place} {initial : Option Stmt}
    (hallows : R.Allows (Stmt.uses? initial p)) :
    Holds R p.sites (enterLoop self initial) (enterLoop watching initial) (fun _ _ => True) m := by
  cases initial with
  | none => exact holds_pure () fun _ => trivial
  | some stmt =>
      rw [Stmt.uses?] at hallows
      exact (hself.execute hallows).bind fun _ _ _ _ => holds_pure () fun _ => trivial

/-- An optional part of a loop, evaluated in every round. -/
theorem related_clause (hself : Related R self watching) {p : Place} {expr : Option Expr}
    (hallows : R.Allows (Expr.uses? expr p)) :
    Option.Rel (fun x y => Holds R p.sites x y (fun v m' => v.Sound R m') m)
      (expr.map self.evaluate) (expr.map watching.evaluate) := by
  cases expr with
  | none => exact .none
  | some expr =>
      rw [Expr.uses?] at hallows
      exact .some (hself.evaluate hallows)

/-- A `for` opens one scope for its clauses and its body. -/
theorem holds_forStatement (hself : Related R self watching) {p : Place} {initial : Option Stmt}
    {condition increment : Option Expr} {body : Stmt} (rounds : Nat)
    (hallows : R.Allows ((Stmt.forLoop initial condition increment body).uses p)) :
    Holds R p.sites (executeStep self rounds (.forLoop initial condition increment body))
      (executeStep watching rounds (.forLoop initial condition increment body))
      (fun flow m' => flow.Sound R m' p ∧ ¬ flow.IsJump) m := by
  simp only [Stmt.uses, Regime.allows_append] at hallows
  obtain ⟨⟨⟨hinitial, hcondition⟩, hincrement⟩, hbody⟩ := hallows
  have hgrows :=
    Stmt.grows_after? initial (p.enter (.loop (.forLoop initial condition increment body)) [])
  refine holds_currentFrame.bind fun around m₁ _ haround => ?_
  have hframe :
      Holds R p.sites (newFrame (.loop (.forLoop initial condition increment body)) around)
      (newFrame (.loop (.forLoop initial condition increment body)) around)
      (fun frame m' => m'.Linked frame
          (p.enter (.loop (.forLoop initial condition increment body)) []).sites) m₁ :=
    holds_newFrame rfl (show Site.IsPlain (.loop _) from trivial) haround
  refine hframe.bind fun frame m₂ _ hlinked => ?_
  refine Holds.inFrame ?_ hlinked fun flow m' h => ⟨h.1.mono (m'.extends_current _), h.2⟩
  refine (holds_enterLoop hself hinitial).bind fun _ m₃ _ _ => ?_
  rw [← hgrows.sites]
  refine (holds_forLoop hgrows.sites (fun m => related_clause hself hcondition)
    (fun m => related_clause hself hincrement)
    (fun m => ?_) rounds).mono fun flow m' _ _ h => ⟨?_, h.2⟩
  · exact (hself.execute hbody).mono fun flow m' _ _ h => h.1
  · -- the scope of the loop opens inside the same function and around the same loops
    cases flow with
    | normal => exact trivial
    | returning value => exact ⟨hgrows.functionKind ▸ h.1.1, h.1.2⟩
    | breaking | continuing => exact (h.2 trivial).elim

theorem holds_executeStep (hself : Related R self watching) {p : Place} {stmt : Stmt} (rounds : Nat)
    (hallows : R.Allows (stmt.uses p)) :
    Holds R p.sites (executeStep self rounds stmt) (executeStep watching rounds stmt)
      (fun flow m' => flow.Sound R m' p ∧ (stmt.IsLoop → ¬ flow.IsJump)) m := by
  have hnormal : ∀ m, Holds R p.sites (pure Flow.normal) (pure Flow.normal)
      (fun flow m' => flow.Sound R m' p ∧ (stmt.IsLoop → ¬ flow.IsJump)) m :=
        fun m => holds_pure _ fun _ => ⟨trivial, fun _ => id⟩
  have hdeclared : ∀ {x y : Eval Flow}, Holds R p.sites x y (fun flow _ => flow = .normal) m →
      Holds R p.sites x y (fun flow m' => flow.Sound R m' p ∧ (stmt.IsLoop → ¬ flow.IsJump)) m :=
    fun h => h.mono fun flow m' _ _ hflow => by rw [hflow]; exact ⟨trivial, fun _ => id⟩
  cases stmt with
  | expression value => exact (hself.evaluate hallows).bind fun _ m' _ _ => hnormal m'
  | print value =>
    exact (hself.evaluate hallows).bind fun _ _ _ _ =>
      (holds_write _).bind fun _ m' _ _ => hnormal m'
  | «variable» name initial =>
      rw [Stmt.uses, Regime.allows_cons] at hallows
      have hinitial := holds_evaluate? (m := m) hself hallows.2
      rw [Place.sites_declare] at hinitial
      refine hinitial.bind fun value m₁ _ hvalue => ?_
      exact (holds_introduce (fun htext => R.declare_ordinary htext hallows.1) hvalue).bind
        fun _ m₂ _ _ => hnormal m₂
  | block statements =>
      rw [Stmt.uses] at hallows
      refine holds_currentFrame.bind fun around m₁ _ haround => ?_
      have hframe : Holds R p.sites (newFrame (.block statements) around)
          (newFrame (.block statements) around)
          (fun frame m' => m'.Linked frame (p.enter (.block statements) []).sites) m₁ :=
        holds_newFrame rfl (show Site.IsPlain (.block _) from trivial) haround
      have hentry : (p.enter (.block statements) []).IsEntry :=
        fun decl outer h => nomatch (List.cons.inj h).1
      refine hframe.bind fun frame m₂ _ hlinked => ?_
      refine (hself.executeBlock hallows hentry hlinked).mono fun flow m' _ _ hflow =>
        ⟨?_, False.elim⟩
      cases flow <;> exact hflow
  | ifElse condition thenBranch elseBranch =>
      simp only [Stmt.uses, Regime.allows_append] at hallows
      obtain ⟨⟨hcondition, hthen⟩, helse⟩ := hallows
      refine (hself.evaluate hcondition).bind fun value m₁ _ _ => ?_
      split
      · exact (hself.execute hthen).mono fun flow m' _ _ hflow => ⟨hflow.1, False.elim⟩
      · cases elseBranch with
        | none => exact hnormal m₁
        | some branch =>
            have hgrows := thenBranch.grows_after p
            rw [Stmt.uses?] at helse
            have hbranch := hself.execute (m := m₁) helse
            rw [hgrows.sites] at hbranch
            exact hbranch.mono fun flow m' _ _ hflow => ⟨hflow.1.of_grows hgrows, False.elim⟩
  | whileLoop condition body =>
      rw [Stmt.uses, Regime.allows_append] at hallows
      refine (holds_whileLoop (fun m => hself.evaluate hallows.1) (fun m => ?_) rounds).mono
        fun flow m' _ _ h => ⟨h.1, fun _ => h.2⟩
      exact (hself.execute hallows.2).mono fun flow m' _ _ h => h.1
  | forLoop initial condition increment body =>
      exact (holds_forStatement hself rounds hallows).mono fun flow m' _ _ h => ⟨h.1, fun _ => h.2⟩
  | jump keyword kind =>
      rw [Stmt.uses, Regime.allows_cons] at hallows
      have hloop := R.jump_inLoop hallows.1
      cases kind with
      | breakLoop => exact holds_pure Flow.breaking fun _ => ⟨hloop, False.elim⟩
      | continueLoop => exact holds_pure Flow.continuing fun _ => ⟨hloop, False.elim⟩
  | function decl => exact hdeclared (holds_declareFunction hallows)
  | returnValue keyword value =>
      rw [Stmt.uses, Regime.allows_cons] at hallows
      refine (holds_evaluate? hself hallows.2).bind fun found m' _ hfound => holds_pure _ fun _ =>
        ⟨⟨?_, ?_⟩, False.elim⟩
      · exact R.return_inFunction hallows.1
      · cases found with
        | none => exact trivial
        | some v => exact hfound v rfl
  | classDecl name parent body => exact hdeclared (holds_declareClass hself hallows)
  | traitDecl name body => exact hdeclared (holds_declareTrait hself hallows)

/-! ### Every evaluation -/

/-- The conditions of a watch follow from what a regime knows of each evaluation. -/
structure Follows (R : Regime) (W : Watch) : Prop where
  evaluate : ∀ {p : Place} {expr : Expr} {m : Machine}, R.Allows (expr.uses p) → R.Sound m →
      m.Linked m.current p.sites →
    ∀ {result : Eval.Result Value}, Ends R p.sites m (fun v m' => v.Sound R m') result →
      W.evaluate expr m result
  execute : ∀ {p : Place} {stmt : Stmt} {m : Machine}, R.Allows (stmt.uses p) → R.Sound m →
      m.Linked m.current p.sites →
    ∀ {result : Eval.Result Flow},
      Ends R p.sites m (fun flow m' => flow.Sound R m' p ∧ (stmt.IsLoop → ¬ flow.IsJump)) result →
    W.execute stmt m result
  executeBlock :
    ∀ {sites : List Site} {p : Place} {statements : List Stmt} {frame : FrameId} {m : Machine},
    R.Allows (Stmt.usesAll statements p) → p.IsEntry → R.Sound m → m.Linked frame p.sites →
    ∀ {result : Eval.Result Flow}, Ends R sites m (fun flow m' => flow.Sound R m' p) result →
      W.executeBlock statements frame m result
  executeTop : ∀ {p : Place} {stmt : Stmt} {m : Machine}, Place.top.Grows p →
      R.Allows (stmt.uses p) → R.Sound m →
    m.Linked m.current p.sites →
    ∀ {result : Eval.Result Flow}, Ends R p.sites m (fun flow m' => flow.Sound R m' p) result →
    W.executeTop stmt m result

variable {W : Watch}

/-- Evaluators whose steps are related are related, and blocks are run with the watched
statements. -/
theorem related_watched (hW : Follows R W) (stop : Stop) {evaluate evaluate' : Expr → Eval Value}
    {execute execute' : Stmt → Eval Flow} {invoke invoke' : Value → Nat → List Value → Eval Value}
    (hevaluate : ∀ {p : Place} {expr : Expr} {m : Machine}, R.Allows (expr.uses p) →
      Holds R p.sites (evaluate expr) (evaluate' expr) (fun v m' => v.Sound R m') m)
    (hexecute : ∀ {p : Place} {stmt : Stmt} {m : Machine}, R.Allows (stmt.uses p) →
      Holds R p.sites (execute stmt) (execute' stmt)
      (fun flow m' => flow.Sound R m' p ∧ (stmt.IsLoop → ¬ flow.IsJump)) m)
    (hinvoke :
      ∀ {sites : List Site} {callee : Value} {line : Nat} {arguments : List Value} {m : Machine},
        callee.Sound R m → (∀ v ∈ arguments, v.Sound R m) →
        Holds R sites (invoke callee line arguments) (invoke' callee line arguments)
        (fun v m' => v.Sound R m') m) :
    Related R (.of evaluate execute invoke) (.watched W stop evaluate' execute' invoke') where
  evaluate hallows :=
    (hevaluate hallows).watched
      (fun hsound hlinked _ hends => hW.evaluate hallows hsound hlinked hends) stop
  execute hallows :=
    (hexecute hallows).watched
      (fun hsound hlinked _ hends => hW.execute hallows hsound hlinked hends) stop
  executeBlock {sites p statements frame m} hallows hentry hlinked := by
    have hstatements : Holds R p.sites (executeAll execute statements)
        (executeAll (fun stmt => watched (W.execute stmt) stop (execute' stmt)) statements)
        (fun flow m' => flow.Sound R m' p)
        { m with current := frame } :=
      holds_executeAll (fun hallows => (hexecute hallows).watched
        (fun hsound hlinked _ hends => hW.execute hallows hsound hlinked hends) stop) hallows
    refine (Holds.inFrame hstatements hlinked fun flow m' h => ?_).watched
      (fun hsound _ _ hends => ?_) stop
    · exact h.mono (m'.extends_current _)
    · exact hW.executeBlock hallows hentry hsound hlinked hends
  invoke := hinvoke

/-- With any fuel the evaluators are related to their watched versions. -/
theorem related_evaluators (hW : Follows R W) (stop : Stop) (fuel : Nat) :
    Related R (evaluators fuel) (watchedInside W stop fuel) := by
  induction fuel with
  | zero =>
    exact related_watched hW stop (fun _ => holds_outOfFuel) (fun _ => holds_outOfFuel)
      (fun _ _ => holds_outOfFuel)
  | succ fuel ih =>
      exact related_watched hW stop (fun hallows => holds_evaluateStep ih hallows)
        (fun hallows => holds_executeStep ih fuel hallows)
        (fun hcallee harguments => holds_invokeStep ih _ hcallee harguments)

/-! ### Programs -/

/-- Evaluators under which the programs that a regime allows run as they do without. -/
def RunsAlike (R : Regime) (fuel : Nat) (self : Evaluators) : Prop :=
  ∀ {statements : List Stmt} {m : Machine}, R.Allows (programUses statements) → R.Sound m →
    m.current = m.globals →
    interpret self statements m = interpret (evaluators fuel) statements m

theorem holds_interpretFrom (hW : Follows R W) (stop : Stop) {fuel : Nat}
    (hwatching : Related R (evaluators fuel) watching) {p : Place} (hp : Place.top.Grows p)
    {statements : List Stmt} (hallows : R.Allows (Stmt.usesAll statements p)) :
    Holds R p.sites (interpretFrom (evaluators fuel) statements)
      (interpretFrom { watching with
        execute := fun stmt => watched (W.executeTop stmt) stop (watching.execute stmt) }
        statements)
      (fun _ _ => True) m := by
  induction statements generalizing p m with
  | nil => exact holds_pure () fun _ => trivial
  | cons stmt rest ih =>
      rw [Stmt.usesAll, Regime.allows_append] at hallows
      have hstmt : Holds R p.sites ((evaluators fuel).execute stmt) (watching.execute stmt)
          (fun flow m' => flow.Sound R m' p) m :=
        (hwatching.execute hallows.1).mono fun flow m' _ _ h => h.1
      have htop :=
        hstmt.watched (fun hsound hlinked _ hends => hW.executeTop hp hallows.1 hsound
          hlinked hends) stop
      refine htop.bind fun _ m' _ _ => ?_
      have hgrows := stmt.grows_after p
      have hrest := ih (m := m') (hp.trans hgrows) hallows.2
      rw [hgrows.sites] at hrest
      exact hrest

/-- Evaluators that are related inside, and watched once more where statements stand in no other. -/
theorem runsAlike_of_related (hW : Follows R W) (stop : Stop) {fuel : Nat}
    (hwatching : Related R (evaluators fuel) watching) :
    RunsAlike R fuel { watching with
      execute := fun stmt => watched (W.executeTop stmt) stop (watching.execute stmt) } := by
  intro statements m hallows hsound hcurrent
  obtain ⟨heq, -⟩ :=
    holds_interpretFrom (m := m) hW stop hwatching (.refl .top) hallows hsound hcurrent
  unfold interpret
  rw [heq]

theorem runsAlike_watched (hW : Follows R W) (stop : Stop) (fuel : Nat) :
    RunsAlike R fuel (watchedEvaluators W stop fuel) :=
  runsAlike_of_related hW stop (related_evaluators hW stop fuel)

theorem follows_nothing (R : Regime) : Follows R {} where
  evaluate _ _ _ _ _ := trivial
  execute _ _ _ _ _ := trivial
  executeBlock _ _ _ _ _ _ := trivial
  executeTop _ _ _ _ _ _ := trivial

/-- A program that the regime allows leaves the machine sound and in top-level code, and stops only
in ways that the regime permits. -/
theorem interpret_sound (fuel : Nat) {statements : List Stmt}
    (hallows : R.Allows (programUses statements)) (hsound : R.Sound m)
    (hcurrent : m.current = m.globals) :
    match interpret (evaluators fuel) statements m with
    | .ok () m' => R.Sound m' ∧ m'.current = m'.globals
    | .error stopped m' => R.Sound m' ∧ m'.current = m'.globals ∧ R.Permits stopped := by
  have hrelated := related_evaluators (follows_nothing R) .outOfFuel fuel
  obtain ⟨-, hends⟩ :=
    holds_interpretFrom (m := m) (follows_nothing R) .outOfFuel hrelated (.refl .top) hallows
      hsound hcurrent
  unfold interpret
  cases hresult : interpretFrom (evaluators fuel) statements m with
  | ok _ m' =>
      rw [hresult] at hends
      exact ⟨hends.2.1, hends.2.2.1⟩
  | error stopped m' =>
      rw [hresult] at hends
      exact ⟨hends.2.1.congr rfl rfl rfl rfl rfl rfl, rfl, hends.2.2⟩

end Eval
end TraitScript
