import TraitScript.Proofs.Parse.Grammar

/-!
# What is read is derivable

If reading records no error, the tokens it has taken are derivable and the tree it returns is the
derived one, up to ids. Errors are never taken back, so a run without errors at its end had none at
any moment; the rules that report an error and go on are thereby ruled out, and so are the
declarations from which reading recovered.
-/

namespace TraitScript

namespace Parse

open Grammar

/-! ### Levels -/

/-- The rule that reads expressions of a rank. -/
def rule (r : Rules) : Rank → Parser Expr
  | .primary => primary r
  | .call => call r
  | .unary => unary r
  | .factor => factor r
  | .term => term r
  | .comparison => comparison r
  | .equality => equality r
  | .logicalAnd => logicalAnd r
  | .logicalOr => logicalOr r
  | .conditional => conditional r
  | .assignment => assignment r
  | .comma => expression r

theorem rule_rank (r : Rules) (level : Level) :
    rule r level.rank =
      leftAssociative (rule r level.operand)
      (fun token => level.isOperator token.kind) level.node := by
  have htest : ∀ (test : Token → Bool), (∀ token, test token = level.isOperator token.kind) →
      test = fun token => level.isOperator token.kind :=
    fun test h => funext h
  cases level <;> refine congrArg (fun test => leftAssociative _ test _) (htest _ fun token => ?_)
  all_goals
    simp only [isAnySymbol, List.any_cons, List.any_nil, Token.isSymbol, Token.isKeyword,
      Level.isOperator]
    cases token.kind with
    | symbol symbol => cases symbol <;> rfl
    | keyword keyword => cases keyword <;> rfl
    | identifier | string _ | number _ | eof => rfl

theorem withoutIds_node (level : Level) (left : Expr) (token : Token) (right : Expr) :
    (level.node left token right).withoutIds =
      level.node left.withoutIds token right.withoutIds := by
  cases level <;> simp [Level.node]

/-! ### Runs without errors -/

structure State.Ready (s : State) : Prop where
  last : s.last.kind = .eof
  loops : s.loopDepths ≠ []

def State.inLoop (s : State) : Bool := s.loopDepths.headD 0 != 0

/-- What a reader does when it records no error: it takes tokens that stand in a relation to what it
returns, to whether a loop is open, and to the token that comes next. -/
def Yields {α : Type} (x : Parser α) (Q : Bool → List Token → α → Option Token → Prop) : Prop :=
  ∀ s : State, s.Ready → match x s with
    | .ok a s' => (s'.last = s.last ∧ s'.loopDepths = s.loopDepths) ∧
        (s'.errors = [] → s.errors = [] ∧ ∃ ts, s.rest = ts ++ s'.rest ∧
          Q s.inLoop ts a s'.rest.head?)
    | .error _ s' => s'.last = s.last ∧ s'.loopDepths = s.loopDepths

section Rules

variable {α β : Type} {x : Parser α} {f : α → Parser β}
  {Q Q' : Bool → List Token → α → Option Token → Prop}
  {R : Bool → List Token → β → Option Token → Prop}

theorem Yields.mono (h : Yields x Q) (himp : ∀ l ts a next, Q l ts a next → Q' l ts a next) :
    Yields x Q' := by
  intro s hs
  have hx := h s hs
  split at hx
  · refine ⟨hx.1, fun hnone => ?_⟩
    obtain ⟨hbefore, ts, hrest, hQ⟩ := hx.2 hnone
    exact ⟨hbefore, ts, hrest, himp _ _ _ _ hQ⟩
  · exact hx

theorem yields_pure {a : α} (h : ∀ l next, Q l [] a next) : Yields (pure a) Q :=
  fun _ _ => ⟨⟨rfl, rfl⟩, fun hnone => ⟨hnone, [], rfl, h _ _⟩⟩

theorem yields_fail (cause : ParseError.Cause) : Yields (fail cause) Q := fun _ _ => ⟨rfl, rfl⟩

theorem yields_throw (error : ParseError) : Yields (throw error) Q := fun _ _ => ⟨rfl, rfl⟩

theorem Yields.bind (hx : Yields x Q)
    (hf : ∀ a, Yields (f a) fun l us b next => ∀ ts, Q l ts a (us.head?.or next) →
      R l (ts ++ us) b next) : Yields (x >>= f) R := by
  intro s hs
  have hfirst := hx s hs
  simp only [Bind.bind, EStateM.bind]
  cases hresult : x s with
  | error e s' =>
      rw [hresult] at hfirst
      exact hfirst
  | ok a s' =>
      rw [hresult] at hfirst
      obtain ⟨⟨hlast, hloops⟩, hthen⟩ := hfirst
      have hsecond := hf a s' ⟨hlast ▸ hs.last, hloops ▸ hs.loops⟩
      split at hsecond
      next heq =>
        simp only [heq]
        refine ⟨⟨hsecond.1.1.trans hlast, hsecond.1.2.trans hloops⟩, fun hnone => ?_⟩
        obtain ⟨hbetween, us, hus, hR⟩ := hsecond.2 hnone
        obtain ⟨hbefore, ts, hts, hQ⟩ := hthen hbetween
        rw [hus, List.head?_append] at hQ
        have hloop : s'.inLoop = s.inLoop := by rw [State.inLoop, State.inLoop, hloops]
        rw [hloop] at hR
        exact ⟨hbefore, ts ++ us, by rw [hts, hus, List.append_assoc], hR ts hQ⟩
      next heq =>
        simp only [heq]
        exact ⟨hsecond.1.trans hlast, hsecond.2.trans hloops⟩

end Rules

/-! ### Tokens -/

/-- Exactly one token is taken, which passes a test. -/
def One (test : Token → Bool) : Bool → List Token → Token → Option Token → Prop :=
  fun _ ts token _ => ts = [token] ∧ test token = true

theorem yields_expect (test : Token → Bool) (cause : ParseError.Cause) :
    Yields (expect test cause) (One test) := by
  intro s _
  cases hrest : s.rest with
  | nil => simp [expect, hrest]
  | cons token rest =>
      by_cases htest : test token = true
      · simp [expect, hrest, htest, One]
      · simp [expect, hrest, htest]

theorem yields_expectSymbol (symbol : Symbol) (position : Position) :
    Yields (expectSymbol symbol position) (One (·.isSymbol symbol)) :=
  yields_expect _ _

theorem yields_expectName (role : NameRole) : Yields (expectName role) (One (·.isIdentifier)) :=
  yields_expect _ _

theorem yields_accept (test : Token → Bool) : Yields (accept test) fun _ ts found next =>
    match found with
    | some token => ts = [token] ∧ test token = true
    | none => ts = [] ∧ ∀ token, next = some token → test token = false := by
  intro s _
  cases hrest : s.rest with
  | nil => simp [accept, hrest]
  | cons token rest =>
      by_cases htest : test token = true
      · simp [accept, hrest, htest]
      · simp [accept, hrest, htest]

/-- Whether a token was taken that passes a test, or the next one does not. -/
def Taken (test : Token → Bool) : Bool → List Token → Bool → Option Token → Prop
  | _, ts, true, _ => ∃ token, ts = [token] ∧ test token = true
  | _, ts, false, next => ts = [] ∧ ∀ token, next = some token → test token = false

theorem yields_isSome_accept (test : Token → Bool) :
    Yields (do return (← accept test).isSome) (Taken test) := by
  refine (yields_accept test).bind fun found => yields_pure fun l next ts hts => ?_
  cases found with
  | none => exact ⟨by simpa using hts.1, by simpa using hts.2⟩
  | some token => exact ⟨token, by simpa using hts.1, hts.2⟩

theorem yields_acceptSymbol (symbol : Symbol) :
    Yields (acceptSymbol symbol) (Taken (·.isSymbol symbol)) := yields_isSome_accept _

theorem yields_acceptKeyword (keyword : Keyword) :
    Yields (acceptKeyword keyword) (Taken (·.isKeyword keyword)) := yields_isSome_accept _

/-- Nothing is taken. -/
def Idle (α : Type) : Bool → List Token → α → Option Token → Prop := fun _ ts _ _ => ts = []

theorem yields_checkSymbol (symbol : Symbol) : Yields (checkSymbol symbol) (Idle Bool) :=
  fun _ _ => ⟨⟨rfl, rfl⟩, fun hnone => ⟨hnone, [], rfl, rfl⟩⟩

theorem yields_atEnd :
    Yields atEnd fun _ ts ended next => ts = [] ∧ (ended = true → next = none) := by
  refine fun s _ => ⟨⟨rfl, rfl⟩, fun hnone => ⟨hnone, [], rfl, rfl, fun hended => ?_⟩⟩
  rw [List.isEmpty_iff.1 hended]
  rfl

theorem yields_remaining : Yields remaining (Idle Nat) :=
  fun _ _ => ⟨⟨rfl, rfl⟩, fun hnone => ⟨hnone, [], rfl, rfl⟩⟩

theorem yields_freshId : Yields freshId (Idle Nat) :=
  fun _ _ => ⟨⟨rfl, rfl⟩, fun hnone => ⟨hnone, [], rfl, rfl⟩⟩

theorem yields_insideLoop : Yields insideLoop fun l ts inside _ => ts = [] ∧ inside = l :=
  fun _ _ => ⟨⟨rfl, rfl⟩, fun hnone => ⟨hnone, [], rfl, rfl, rfl⟩⟩

theorem yields_startsFunction : Yields startsFunction fun _ ts starts next =>
    ts = [] ∧ (starts = true → ∃ word, next = some word ∧ word.isKeyword .funWord = true) := by
  refine fun s _ => ⟨⟨rfl, rfl⟩, fun hnone => ⟨hnone, [], rfl, rfl, fun hstarts => ?_⟩⟩
  unfold State.startsFunction at hstarts
  split at hstarts
  next word name rest hrest =>
    rw [Bool.and_eq_true] at hstarts
    exact ⟨word, by rw [hrest]; rfl, hstarts.1⟩
  next => cases hstarts

/-- An error that is recorded stays recorded. -/
theorem yields_report (token : Token) (cause : ParseError.Cause) :
    Yields (report token cause) fun _ _ _ _ => False :=
  fun s _ => ⟨⟨rfl, rfl⟩, fun hnone => absurd hnone (by simp)⟩

theorem yields_next :
    Yields next fun _ ts token next => ts = [] ∧ (next = some token ∨ token.kind = .eof) := by
  refine fun s hs => ⟨⟨rfl, rfl⟩, fun hnone => ⟨hnone, [], rfl, rfl, ?_⟩⟩
  unfold State.next
  cases hrest : s.rest with
  | nil => exact .inr hs.last
  | cons token rest => exact .inl rfl

theorem yields_dispatch {α : Type} {R : Bool → List Token → α → Option Token → Prop}
    {choose : Token → Option (Parser α)} {other : Parser α}
    (hend : ∀ token, token.kind = .eof → choose token = none)
    (hrule : ∀ token rule, choose token = some rule → Yields rule fun l us a next =>
      R l (token :: us) a next)
    (hother : Yields other R) :
    Yields (dispatch choose other) R := by
  refine yields_next.bind fun token => ?_
  cases hchoose : choose token with
  | none =>
      refine hother.mono fun l us a next h ts hts => ?_
      rw [hts.1]
      exact h
  | some rule =>
      refine (yields_accept _).bind fun found =>
        (hrule token rule hchoose).mono fun l us a next h ts hts ts' hts' => ?_
      cases found with
      | none =>
          rcases hts'.2 with hnext | heof
          · rw [hts.1, List.nil_append] at hnext
            exact absurd (hts.2 token hnext) (by simp)
          · rw [hend token heof] at hchoose
            cases hchoose
      | some taken =>
          rw [hts.1, hts'.1]
          rcases hts'.2 with hnext | heof
          · rw [hts.1] at hnext
            cases hnext
            exact h
          · rw [hend token heof] at hchoose
            cases hchoose

/-! ### Loops, function bodies and recovery -/

theorem yields_inLoop {α : Type} {x : Parser α} {Q : Bool → List Token → α → Option Token → Prop}
    (h : Yields x Q) :
    Yields (inLoop x) fun _ ts a next => Q true ts a next := by
  intro s hs
  obtain ⟨depth, outer, hloops⟩ : ∃ depth outer, s.loopDepths = depth :: outer :=
    List.exists_cons_of_ne_nil hs.loops
  have hinside : s.mapLoops (· + 1) = { s with loopDepths := (depth + 1) :: outer } := by
    rw [State.mapLoops, hloops]
  have hx := h { s with loopDepths := (depth + 1) :: outer } ⟨hs.last, by simp⟩
  have hback : ∀ s' : State, s'.loopDepths = (depth + 1) :: outer →
      s'.mapLoops (· - 1) = { s' with loopDepths := depth :: outer } := by
    intro s' hdepths
    rw [State.mapLoops, hdepths]
    simp
  cases hresult : x { s with loopDepths := (depth + 1) :: outer } with
  | ok a s' =>
      rw [hresult] at hx
      have hrun : inLoop x s = .ok a { s' with loopDepths := depth :: outer } := by
        simp only [inLoop, thenAlways, hinside, hresult, hback s' hx.1.2]
      rw [hrun]
      exact ⟨⟨hx.1.1, hloops.symm⟩, fun hnone => hx.2 hnone⟩
  | error e s' =>
      rw [hresult] at hx
      have hrun : inLoop x s = .error e { s' with loopDepths := depth :: outer } := by
        simp only [inLoop, thenAlways, hinside, hresult, hback s' hx.2]
      rw [hrun]
      exact ⟨hx.1, hloops.symm⟩

theorem yields_inFunction {α : Type} {x : Parser α}
    {Q : Bool → List Token → α → Option Token → Prop} (h : Yields x Q) :
    Yields (inFunction x) fun _ ts a next => Q false ts a next := by
  intro s hs
  have hx := h { s with loopDepths := 0 :: s.loopDepths } ⟨hs.last, by simp⟩
  cases hresult : x { s with loopDepths := 0 :: s.loopDepths } with
  | ok a s' =>
      rw [hresult] at hx
      have hrun : inFunction x s = .ok a { s' with loopDepths := s.loopDepths } := by
        simp only [inFunction, thenAlways, hresult, hx.1.2, List.drop_succ_cons, List.drop_zero]
      rw [hrun]
      exact ⟨⟨hx.1.1, rfl⟩, fun hnone => hx.2 hnone⟩
  | error e s' =>
      rw [hresult] at hx
      have hrun : inFunction x s = .error e { s' with loopDepths := s.loopDepths } := by
        simp only [inFunction, thenAlways, hresult, hx.2, List.drop_succ_cons, List.drop_zero]
      rw [hrun]
      exact ⟨hx.1, rfl⟩

theorem yields_recovering {α : Type} {x : Parser α}
    {Q : Bool → List Token → α → Option Token → Prop} (h : Yields x Q) :
    Yields (recovering x) fun l ts found next => ∃ a, found = some a ∧ Q l ts a next := by
  intro s hs
  have hx := h s hs
  cases hresult : x s with
  | ok a s' =>
      rw [hresult] at hx
      have hrun : recovering x s = .ok (some a) s' := by simp only [recovering, hresult]
      rw [hrun]
      refine ⟨hx.1, fun hnone => ?_⟩
      obtain ⟨hbefore, ts, hrest, hQ⟩ := hx.2 hnone
      exact ⟨hbefore, ts, hrest, a, rfl, hQ⟩
  | error e s' =>
      rw [hresult] at hx
      have hrun : recovering x s = .ok none { s' with
        errors := s'.errors ++ [e], rest := skip s'.rest } := by simp only [recovering, hresult]
      rw [hrun]
      exact ⟨hx, fun hnone => absurd hnone (by simp)⟩

/-! ### Expressions -/

/-- The tokens taken form an expression of a rank. -/
def OfRank (rank : Rank) : Bool → List Token → Expr → Option Token → Prop :=
  fun _ ts e _ => Derives (.expr rank) ts e.withoutIds

/-- The tokens taken form a statement, and one that is open is not followed by `else`. -/
def IsStatement : Bool → List Token → Stmt → Option Token → Prop := fun l ts stmt next =>
  Derives (.statement l) ts stmt.withoutIds ∧
    (stmt.endsOpen = true → ∀ token, next = some token → token.isKeyword .elseWord = false)

/-- The rules that are re-entered read what they are named for. -/
structure Rules.Derive (r : Rules) : Prop where
  expression : Yields r.expression (OfRank .comma)
  assignment : Yields r.assignment (OfRank .assignment)
  conditional : Yields r.conditional (OfRank .conditional)
  comparison : Yields r.comparison (OfRank .comparison)
  term : Yields r.term (OfRank .term)
  factor : Yields r.factor (OfRank .factor)
  unary : Yields r.unary (OfRank .unary)
  statement : Yields r.statement IsStatement
  declaration : Yields r.declaration fun l ts found _ =>
      ∃ stmt, found = some stmt ∧ Derives (.declaration l) ts stmt.withoutIds

theorem endsOpen_withoutIds : (stmt : Stmt) → stmt.withoutIds.endsOpen = stmt.endsOpen
  | .ifElse _ _ none => rfl
  | .ifElse _ _ (some elseBranch) => endsOpen_withoutIds elseBranch
  | .whileLoop _ body | .forLoop _ _ _ body => endsOpen_withoutIds body
  | .expression _ | .print _ | .variable _ _ | .block _ | .jump _ _ | .function _ | .returnValue _ _
  | .classDecl _ _ _ | .traitDecl _ _ => rfl

variable {r : Rules}

theorem yields_operators {level : Level} {operand : Parser Expr}
    (hoperand : Yields operand (OfRank level.operand)) (bound : Nat) (left : Expr) :
    Yields (leftAssociativeFrom operand (fun token => level.isOperator token.kind)
      level.node bound left)
      fun _ ts e _ => Derives (.operators level left.withoutIds) ts e.withoutIds := by
  induction bound generalizing left with
  | zero => exact yields_pure fun _ _ => .noOperator
  | succ bound ih =>
      refine (yields_accept _).bind fun found => ?_
      cases found with
      | none =>
          refine yields_pure fun l next ts hts => ?_
          rw [hts.1]
          exact .noOperator
      | some token =>
          refine hoperand.bind fun right => (ih _).mono fun l us e next h ts hts ts' hts' => ?_
          rw [withoutIds_node] at h
          rw [hts'.1]
          show Derives (.operators level left.withoutIds) (token :: (ts ++ us)) e.withoutIds
          exact .operator hts'.2 hts h

theorem yields_level (level : Level)
    (hoperand : Yields (rule r level.operand) (OfRank level.operand)) :
    Yields (rule r level.rank) (OfRank level.rank) := by
  rw [rule_rank]
  refine hoperand.bind fun left => yields_remaining.bind fun bound =>
    (yields_operators hoperand bound left).mono ?_
  intro l us e next h ts hts ts' hts'
  rw [hts]
  exact .level hts' h

theorem yields_checkCount (count : Nat) (cause : ParseError.Cause) :
    Yields (checkCount count cause) fun _ ts _ _ => ts = [] ∧ count < 255 := by
  unfold checkCount
  split
  · exact yields_next.bind fun token => (yields_report token cause).mono fun _ _ _ _ h => h.elim
  next hcount => exact yields_pure fun _ _ => ⟨rfl, Nat.lt_of_not_le hcount⟩

theorem yields_parametersFrom (bound count : Nat) :
    Yields (parametersFrom bound count) fun _ ts params _ =>
      Names ts params ∧ count + params.length ≤ 255 := by
  induction bound generalizing count with
  | zero =>
      refine (yields_checkCount _ _).bind fun _ => (yields_expectName _).bind fun name =>
        yields_pure fun l next ts hts ts' hts' => ?_
      rw [hts.1, hts'.1]
      exact ⟨.one hts.2, hts'.2⟩
  | succ bound ih =>
      refine (yields_checkCount _ _).bind fun _ => (yields_expectName _).bind fun name =>
        (yields_acceptSymbol _).bind fun more => ?_
      cases more with
      | true =>
          refine (ih (count + 1)).bind fun params =>
            yields_pure fun l next us hus ts hts ts' hts' ts'' hts'' => ?_
          obtain ⟨comma, rfl, hcomma⟩ := hts
          rw [hts'.1, hts''.1, List.append_nil]
          refine ⟨.more hts'.2 hcomma hus.1, ?_⟩
          have hcount := hus.2
          rw [List.length_cons]
          omega
      | false =>
          refine yields_pure fun l next ts hts ts' hts' ts'' hts'' => ?_
          rw [hts.1, hts'.1, hts''.1]
          exact ⟨.one hts'.2, hts''.2⟩

theorem yields_parameters : Yields parameters fun _ ts params _ => Parameters ts params := by
  refine (yields_checkSymbol _).bind fun closing => ?_
  split
  · refine yields_pure fun l next ts hts => ?_
    rw [hts]
    exact .none
  · refine yields_remaining.bind fun bound =>
      (yields_parametersFrom bound 0).mono fun l us params next h ts hts ts' hts' => ?_
    rw [hts, hts']
    exact .some h.1 (by simpa using h.2)

theorem yields_statementsFrom (hr : r.Derive) (bound : Nat) :
    Yields (statementsFrom r bound) fun l ts statements _ =>
      Derives (.declarations l) ts (Stmt.withoutIdsAll statements) := by
  induction bound with
  | zero => exact yields_pure fun _ _ => .noDeclaration
  | succ bound ih =>
      refine (yields_checkSymbol _).bind fun closing => yields_atEnd.bind fun ended => ?_
      split
      · refine yields_pure fun l next ts hts ts' hts' => ?_
        rw [hts.1, hts']
        exact .noDeclaration
      · refine hr.declaration.bind fun found => ?_
        cases found with
        | none => exact ih.mono fun _ _ _ _ _ ts hts => by simp at hts
        | some stmt =>
            refine ih.bind fun rest =>
              yields_pure fun l next us hus ts hts ts' hts' ts'' hts'' => ?_
            obtain ⟨_, hfound, hstmt⟩ := hts
            cases hfound
            rw [hts'.1, hts'', List.append_nil, List.nil_append, List.nil_append]
            exact .moreDeclarations hstmt hus

theorem yields_block (hr : r.Derive) : Yields (block r) fun l ts statements _ =>
    ∀ opening : Token, opening.isSymbol .leftBrace →
      Derives (.block l) (opening :: ts) (Stmt.withoutIdsAll statements) := by
  refine yields_remaining.bind fun bound => (yields_statementsFrom hr bound).bind fun statements =>
    (yields_expectSymbol _ _).bind fun closing => ?_
  refine yields_pure fun l next ts hts us hus vs hvs opening hopening => ?_
  rw [hts.1, hvs]
  exact .block hopening hus hts.2

theorem yields_functionRest (hr : r.Derive) (name : Option Token) (position : Position) :
    Yields (functionRest r name position) fun _ ts decl _ =>
    ∀ opening : Token, opening.isSymbol .leftParen →
      Derives (.function name) (opening :: ts) decl.withoutIds := by
  refine yields_parameters.bind fun params => (yields_expectSymbol _ _).bind fun closing =>
    (yields_expectSymbol _ _).bind fun brace => ?_
  refine (yields_inFunction (yields_block hr)).bind fun body =>
    yields_pure fun l next ts hts us hus vs hvs ws hws opening hopening => ?_
  rw [hus.1, hvs.1, List.append_nil]
  exact .function hopening hws hvs.2 (hts brace hus.2)

theorem yields_orphanOperand {operators : List (List Symbol × Parser Expr)}
    (h : ∀ entry ∈ operators, ∃ rank, Yields entry.2 (OfRank rank))
    (Q : Bool → List Token → Expr → Option Token → Prop) : Yields (orphanOperand operators) Q := by
  induction operators with
  | nil => exact yields_fail _
  | cons entry rest ih =>
      obtain ⟨⟨rank, hoperand⟩, hrest⟩ := List.forall_mem_cons.1 h
      refine (yields_accept _).bind fun found => ?_
      cases found with
      | none =>
          refine (ih hrest).mono fun l us e next hQ ts hts => ?_
          rw [hts.1]
          exact hQ
      | some token =>
          exact (yields_report _ _).bind fun _ => hoperand.bind fun _ =>
            yields_pure fun _ _ _ _ _ hfalse => hfalse.elim

theorem yields_keywordExpression (hr : r.Derive) {token : Token} {keyword : Keyword}
    (htoken : token.isKeyword keyword = true) {x : Parser Expr}
    (hx : keywordExpression r token keyword = some x) :
    Yields x fun _ us e _ => Derives (.expr .primary) (token :: us) e.withoutIds := by
  unfold keywordExpression at hx
  split at hx <;> cases hx
  · exact yields_pure fun _ _ => .atom (.falseWord htoken)
  · exact yields_pure fun _ _ => .atom (.trueWord htoken)
  · exact yields_pure fun _ _ => .atom (.nilWord htoken)
  · refine yields_freshId.bind fun id => yields_pure fun l next ts hts => ?_
    rw [hts]
    exact .atom (.thisWord htoken)
  · refine (yields_expectSymbol _ _).bind fun dot => (yields_expectName _).bind fun name =>
      yields_freshId.bind fun id => ?_
    refine yields_pure fun l next ts hts us hus vs hvs => ?_
    rw [hts, hus.1, hvs.1]
    exact .superMethod htoken hvs.2 hus.2
  · refine (yields_expectSymbol _ _).bind fun opening =>
      (yields_functionRest hr _ _).bind fun decl => yields_pure fun l next ts hts us hus => ?_
    rw [hus.1, List.append_nil]
    exact .functionExpr htoken (hts opening hus.2)

theorem yields_primary (hr : r.Derive) : Yields (primary r) (OfRank .primary) := by
  refine yields_dispatch (fun token hend => by simp [primaryFrom, hend]) (fun token x hx => ?_)
    (yields_orphanOperand ?_ _)
  · unfold primaryFrom at hx
    split at hx
    next hkind =>
      cases hx
      exact yields_pure fun _ _ => .atom (.number hkind)
    next hkind =>
      cases hx
      exact yields_pure fun _ _ => .atom (.string hkind)
    next hkind =>
      cases hx
      refine yields_freshId.bind fun id => yields_pure fun l next ts hts => ?_
      rw [hts]
      exact .atom (.identifier (Token.isIdentifier_iff.2 hkind))
    next hkind => exact yields_keywordExpression hr (Token.isKeyword_iff.2 hkind) hx
    next hkind =>
      cases hx
      refine hr.expression.bind fun inner => (yields_expectSymbol _ _).bind fun closing =>
        yields_pure fun l next ts hts us hus => ?_
      rw [hts.1]
      exact .group (Token.isSymbol_iff.2 hkind) hus hts.2
    next => cases hx
  · simp only [orphanOperators, List.mem_cons, List.not_mem_nil, or_false,
      forall_eq_or_imp, forall_eq]
    exact ⟨⟨_, hr.comparison⟩, ⟨_, hr.term⟩, ⟨_, hr.factor⟩, ⟨_, hr.unary⟩, ⟨_, hr.assignment⟩⟩

theorem yields_argumentsFrom (hr : r.Derive) (bound count : Nat) :
    Yields (argumentsFrom r bound count) fun _ ts args _ =>
    Derives .argumentList ts (Expr.withoutIdsAll args) ∧ count + args.length ≤ 255 := by
  induction bound generalizing count with
  | zero =>
      refine (yields_checkCount _ _).bind fun _ => hr.assignment.bind fun e =>
        yields_pure fun l next ts hts ts' hts' => ?_
      rw [hts'.1, List.append_nil]
      exact ⟨.lastArgument hts, hts'.2⟩
  | succ bound ih =>
      refine (yields_checkCount _ _).bind fun _ => hr.assignment.bind fun e =>
        (yields_acceptSymbol _).bind fun more => ?_
      cases more with
      | true =>
          refine (ih (count + 1)).bind fun args =>
            yields_pure fun l next us hus ts hts ts' hts' ts'' hts'' => ?_
          obtain ⟨comma, rfl, hcomma⟩ := hts
          rw [hts''.1, List.append_nil]
          refine ⟨.moreArguments hts' hcomma hus.1, ?_⟩
          have hcount := hus.2
          rw [List.length_cons]
          omega
      | false =>
          refine yields_pure fun l next ts hts ts' hts' ts'' hts'' => ?_
          rw [hts.1, hts''.1, List.append_nil, List.append_nil]
          exact ⟨.lastArgument hts', hts''.2⟩

theorem length_withoutIdsAll (exprs : List Expr) :
    (Expr.withoutIdsAll exprs).length = exprs.length := by
  induction exprs with
  | nil => rfl
  | cons e rest ih => simp [ih]

theorem yields_arguments (hr : r.Derive) :
    Yields (arguments r) fun _ ts args _ => Derives .arguments ts (Expr.withoutIdsAll args) := by
  refine (yields_checkSymbol _).bind fun closing => ?_
  split
  · refine yields_pure fun l next ts hts => ?_
    rw [hts]
    exact .noArguments
  · refine yields_remaining.bind fun bound =>
      (yields_argumentsFrom hr bound 0).mono fun l us args next h ts hts ts' hts' => ?_
    rw [hts, hts']
    refine .someArguments h.1 ?_
    rw [length_withoutIdsAll]
    simpa using h.2

theorem yields_accessesFrom (hr : r.Derive) (bound : Nat) (expr : Expr) :
    Yields (accessesFrom r bound expr) fun _ ts e _ =>
      Derives (.accesses expr.withoutIds) ts e.withoutIds := by
  induction bound generalizing expr with
  | zero => exact yields_pure fun _ _ => .noAccess
  | succ bound ih =>
      refine (yields_acceptSymbol _).bind fun isCall => ?_
      cases isCall with
      | true =>
          have hcall : Yields (callRest r expr) fun _ ts e _ =>
              ∀ opening vs e', opening.isSymbol .leftParen = true →
              Derives (.accesses e.withoutIds) vs e' →
              Derives (.accesses expr.withoutIds) (opening :: (ts ++ vs)) e' := by
            refine (yields_arguments hr).bind fun args =>
              (yields_expectSymbol _ _).bind fun closing => ?_
            refine yields_pure fun l next ts hts us hus opening vs e' hopening hrest => ?_
            rw [hts.1, List.append_nil, List.append_assoc]
            exact .arguments hopening hus hts.2 hrest
          refine hcall.bind fun e => (ih e).mono fun l us e' next h ts hts ts' hts' => ?_
          obtain ⟨opening, rfl, hopening⟩ := hts'
          exact hts opening us _ hopening h
      | false =>
          refine (yields_acceptSymbol _).bind fun isGet => ?_
          cases isGet with
          | true =>
              refine (yields_expectName _).bind fun name =>
                (ih _).mono fun l us e next h ts hts ts' hts' ts'' hts'' => ?_
              obtain ⟨dot, rfl, hdot⟩ := hts'
              rw [hts.1, hts''.1]
              exact .property hdot hts.2 h
          | false =>
              refine yields_pure fun l next ts hts ts' hts' => ?_
              rw [hts.1, hts'.1]
              exact .noAccess

theorem yields_call (hr : r.Derive) : Yields (call r) (OfRank .call) := by
  refine (yields_primary hr).bind fun e => yields_remaining.bind fun bound =>
    (yields_accessesFrom hr bound e).mono ?_
  intro l us e' next h ts hts ts' hts'
  rw [hts]
  exact .call hts' h

theorem yields_unary (hr : r.Derive) : Yields (unary r) (OfRank .unary) := by
  refine (yields_accept _).bind fun found => ?_
  cases found with
  | none =>
      refine (yields_call hr).mono fun l us e next h ts hts => ?_
      rw [hts.1]
      exact .noUnary h
  | some token =>
      refine hr.unary.bind fun right => yields_pure fun l next us hus ts hts => ?_
      rw [hts.1, List.append_nil]
      refine .unary ?_ hus
      simpa [isAnySymbol] using hts.2

theorem yields_logicalOr (hr : r.Derive) : Yields (logicalOr r) (OfRank .logicalOr) :=
  have hfactor := yields_level .factor (yields_unary hr)
  have hterm := yields_level .term hfactor
  have hcomparison := yields_level .comparison hterm
  have hequality := yields_level .equality hcomparison
  have hlogicalAnd := yields_level .logicalAnd hequality
  yields_level .logicalOr hlogicalAnd

theorem yields_conditional (hr : r.Derive) : Yields (conditional r) (OfRank .conditional) := by
  refine (yields_logicalOr hr).bind fun condition => (yields_acceptSymbol _).bind fun given => ?_
  cases given with
  | true =>
      refine hr.expression.bind fun thenBranch => (yields_expectSymbol _ _).bind fun colon =>
        hr.conditional.bind fun elseBranch => ?_
      refine yields_pure fun l next vs hvs ts hts us hus ts' hts' ws hws => ?_
      obtain ⟨question, rfl, hquestion⟩ := hts'
      rw [hts.1, List.append_nil]
      exact .conditional hws hquestion hus hts.2 hvs
  | false =>
      refine yields_pure fun l next ts hts us hus => ?_
      rw [hts.1, List.append_nil, List.append_nil]
      exact .noConditional hus

theorem yields_assignment (hr : r.Derive) : Yields (assignment r) (OfRank .assignment) := by
  refine (yields_conditional hr).bind fun target => (yields_accept _).bind fun found => ?_
  cases found with
  | none =>
      refine yields_pure fun l next ts hts us hus => ?_
      rw [hts.1, List.append_nil, List.append_nil]
      exact .noAssignment hus
  | some equals =>
      refine hr.assignment.bind fun value => ?_
      split
      next e hassign =>
        refine yields_pure fun l next vs hvs ts hts us hus => ?_
        rw [hts.1, List.append_nil]
        unfold assignTo at hassign
        split at hassign <;> cases hassign
        · exact .assignVariable hus hts.2 hvs
        · exact .assignProperty hus hts.2 hvs
      next => exact (yields_report _ _).bind fun _ => yields_pure fun _ _ _ hfalse => hfalse.elim

theorem yields_expression (hr : r.Derive) : Yields (expression r) (OfRank .comma) :=
  yields_level .comma (yields_assignment hr)

/-! ### Statements -/

theorem yields_expressionStatement (hr : r.Derive) :
    Yields (expressionStatement r) fun _ ts stmt _ => ∃ us semicolon e,
    ts = us ++ [semicolon] ∧ Token.isSymbol semicolon .semicolon = true ∧
    stmt.withoutIds = .expression e ∧ Derives (.expr .comma) us e := by
  refine (yields_expression hr).bind fun e => (yields_expectSymbol _ _).bind fun semicolon =>
    yields_pure fun l next ts hts us hus => ?_
  exact ⟨us, semicolon, e.withoutIds, by rw [hts.1]; rfl, hts.2, rfl, hus⟩

theorem yields_expressionUnless (hr : r.Derive) (symbol : Symbol) :
    Yields (expressionUnless r symbol) fun _ ts found _ =>
      Derives .optional ts (Expr.withoutIds? found) := by
  refine (yields_checkSymbol _).bind fun absent => ?_
  split
  · refine yields_pure fun l next ts hts => ?_
    rw [hts]
    exact .noExpression
  · refine (yields_expression hr).bind fun e => yields_pure fun l next us hus ts hts => ?_
    rw [hts, List.append_nil]
    exact .someExpression hus

theorem yields_variableDeclaration (hr : r.Derive) :
    Yields (variableDeclaration r) fun _ ts stmt _ =>
    stmt.endsOpen = false ∧ ∀ word : Token, word.isKeyword .varWord →
      Derives .varDecl (word :: ts) stmt.withoutIds := by
  refine (yields_expectName _).bind fun name => ?_
  have hinitial : Yields (initialValue r) fun _ ts found _ =>
      ∀ word semicolon : Token, word.isKeyword .varWord = true →
      name.isIdentifier = true → semicolon.isSymbol .semicolon = true →
      Derives .varDecl (word :: name :: (ts ++ [semicolon]))
      (.variable name (Expr.withoutIds? found)) := by
    refine (yields_acceptSymbol _).bind fun given => ?_
    cases given with
    | true =>
        refine (yields_expression hr).bind fun value =>
          yields_pure fun l next us hus ts hts word semicolon hword hname hsemicolon => ?_
        obtain ⟨equals, rfl, hequals⟩ := hts
        rw [List.append_nil]
        exact .varDeclValue hword hname hequals hus hsemicolon
    | false =>
        refine yields_pure fun l next ts hts word semicolon hword hname hsemicolon => ?_
        rw [hts.1]
        exact .varDecl hword hname hsemicolon
  refine hinitial.bind fun initial => (yields_expectSymbol _ _).bind fun semicolon =>
    yields_pure fun l next ts hts us hus vs hvs => ?_
  refine ⟨rfl, fun word hword => ?_⟩
  rw [hts.1, hvs.1]
  exact hus word semicolon hword hvs.2 hts.2

theorem yields_elseBranch (hr : r.Derive) : Yields (elseBranch r) fun l ts found next =>
    match found with
    | some stmt =>
      ∃ word us, ts = word :: us ∧ word.isKeyword .elseWord = true ∧ IsStatement l us stmt next
    | none => ts = [] ∧ ∀ token, next = some token → token.isKeyword .elseWord = false := by
  refine (yields_acceptKeyword _).bind fun given => ?_
  cases given with
  | true =>
      refine hr.statement.bind fun stmt => yields_pure fun l next us hus ts hts => ?_
      obtain ⟨word, rfl, hword⟩ := hts
      rw [List.append_nil]
      exact ⟨word, us, rfl, hword, hus⟩
  | false =>
      refine yields_pure fun l next ts hts => ?_
      rw [hts.1]
      exact ⟨rfl, by simpa using hts.2⟩

theorem yields_ifStatement (hr : r.Derive) {word : Token} (hword : word.isKeyword .ifWord = true) :
    Yields (ifStatement r) fun l us stmt next => IsStatement l (word :: us) stmt next := by
  refine (yields_expectSymbol _ _).bind fun opening => (yields_expression hr).bind fun condition =>
    (yields_expectSymbol _ _).bind fun closing => ?_
  refine hr.statement.bind fun thenBranch => (yields_elseBranch hr).bind fun other =>
    yields_pure fun l next ts hts us hus vs hvs ws hws xs hxs => ?_
  rw [hvs.1, hxs.1, List.append_nil]
  cases other with
  | none =>
      rw [hts.1, List.append_nil]
      exact ⟨.ifStmt hword hxs.2 hws hvs.2 hus.1, fun _ => by simpa using hts.2⟩
  | some elseBranch =>
      obtain ⟨elseWord, es, rfl, helse, hes⟩ := hts
      have hnearest : thenBranch.withoutIds.endsOpen = false := by
        rw [endsOpen_withoutIds]
        rw [← Bool.not_eq_true]
        intro hopen
        have hnot := hus.2 hopen elseWord (by simp)
        rw [helse] at hnot
        cases hnot
      exact ⟨.ifElseStmt hword hxs.2 hws hvs.2 hus.1 hnearest helse hes.1, hes.2⟩

theorem yields_whileStatement (hr : r.Derive) {word : Token}
    (hword : word.isKeyword .whileWord = true) :
    Yields (whileStatement r) fun l us stmt next => IsStatement l (word :: us) stmt next := by
  refine (yields_expectSymbol _ _).bind fun opening => (yields_expression hr).bind fun condition =>
    (yields_expectSymbol _ _).bind fun closing => ?_
  refine (yields_inLoop hr.statement).bind fun body =>
    yields_pure fun l next us hus vs hvs ws hws xs hxs => ?_
  rw [hvs.1, hxs.1, List.append_nil]
  exact ⟨.whileStmt hword hxs.2 hws hvs.2 hus.1, hus.2⟩

theorem yields_forInitial (hr : r.Derive) :
    Yields (forInitial r) fun _ ts found _ => Derives .forInitial ts (Stmt.withoutIds? found) := by
  refine (yields_acceptSymbol _).bind fun absent => ?_
  cases absent with
  | true =>
      refine yields_pure fun l next ts hts => ?_
      obtain ⟨semicolon, rfl, hsemicolon⟩ := hts
      exact .noInitial hsemicolon
  | false =>
      refine (yields_acceptKeyword _).bind fun isVariable => ?_
      cases isVariable with
      | true =>
          refine (yields_variableDeclaration hr).bind fun stmt =>
            yields_pure fun l next us hus ts hts vs hvs => ?_
          obtain ⟨word, rfl, hword⟩ := hts
          rw [hvs.1, List.append_nil]
          exact .varInitial (hus.2 word hword)
      | false =>
          refine (yields_expressionStatement hr).bind fun stmt =>
            yields_pure fun l next us hus ts hts vs hvs => ?_
          obtain ⟨ws, semicolon, e, rfl, hsemicolon, hstmt, he⟩ := hus
          rw [hts.1, hvs.1, List.append_nil]
          simp only [Stmt.withoutIds?, hstmt]
          exact .exprInitial he hsemicolon

theorem yields_forStatement (hr : r.Derive) {word : Token}
    (hword : word.isKeyword .forWord = true) :
    Yields (forStatement r) fun l us stmt next => IsStatement l (word :: us) stmt next := by
  refine (yields_expectSymbol _ _).bind fun opening => (yields_forInitial hr).bind fun initial =>
    (yields_expressionUnless hr _).bind fun condition => ?_
  refine (yields_expectSymbol _ _).bind fun semicolon =>
    (yields_expressionUnless hr _).bind fun increment => ?_
  refine (yields_expectSymbol _ _).bind fun closing =>
    (yields_inLoop hr.statement).bind fun body => ?_
  refine yields_pure fun l next ts hts us hus vs hvs ws hws xs hxs ys hys zs hzs => ?_
  rw [hzs.1, hws.1, hus.1, List.append_nil]
  exact ⟨.forStmt hword hzs.2 hys hxs hws.2 hvs hus.2 hts.1, hts.2⟩

theorem yields_statementFrom (hr : r.Derive) {token : Token} {x : Parser Stmt}
    (hx : statementFrom r token = some x) :
    Yields x fun l us stmt next => IsStatement l (token :: us) stmt next := by
  have hjump : ∀ kind : Jump, token.isKeyword (jumpKeyword kind) = true →
      Yields (jumpStatement token kind) fun l us stmt next =>
      IsStatement l (token :: us) stmt next := by
    intro kind htoken
    refine yields_insideLoop.bind fun inside => ?_
    cases inside with
    | true =>
        refine (yields_expectSymbol _ _).bind fun semicolon =>
          yields_pure fun l next ts hts us hus => ?_
        rw [hts.1, hus.1, ← hus.2]
        exact ⟨.jumpStmt htoken hts.2, by simp [Stmt.endsOpen]⟩
    | false => exact yields_throw _
  unfold statementFrom at hx
  split at hx
  next hkind =>
    cases hx
    exact yields_forStatement hr (Token.isKeyword_iff.2 hkind)
  next hkind =>
    cases hx
    exact yields_ifStatement hr (Token.isKeyword_iff.2 hkind)
  next hkind =>
    cases hx
    exact yields_whileStatement hr (Token.isKeyword_iff.2 hkind)
  next hkind =>
    cases hx
    refine (yields_expressionUnless hr _).bind fun value =>
      (yields_expectSymbol _ _).bind fun semicolon => yields_pure fun l next ts hts us hus => ?_
    rw [hts.1]
    exact ⟨.returnStmt (Token.isKeyword_iff.2 hkind) hus hts.2, by simp [Stmt.endsOpen]⟩
  next hkind =>
    cases hx
    exact hjump .breakLoop (Token.isKeyword_iff.2 hkind)
  next hkind =>
    cases hx
    exact hjump .continueLoop (Token.isKeyword_iff.2 hkind)
  next hkind =>
    cases hx
    refine (yields_expression hr).bind fun e => (yields_expectSymbol _ _).bind fun semicolon =>
      yields_pure fun l next ts hts us hus => ?_
    rw [hts.1]
    exact ⟨.printStmt (Token.isKeyword_iff.2 hkind) hus hts.2, by simp [Stmt.endsOpen]⟩
  next hkind =>
    cases hx
    refine (yields_block hr).bind fun statements => yields_pure fun l next ts hts => ?_
    rw [List.append_nil]
    exact ⟨.blockStmt (hts token (Token.isSymbol_iff.2 hkind)), by simp [Stmt.endsOpen]⟩
  next => cases hx

theorem yields_statement (hr : r.Derive) : Yields (statement r) IsStatement := by
  refine yields_dispatch (fun token hend => by simp [statementFrom, hend])
    (fun token x hx => yields_statementFrom hr hx) ?_
  refine (yields_expressionStatement hr).mono fun l ts stmt next h => ?_
  obtain ⟨us, semicolon, e, rfl, hsemicolon, hstmt, he⟩ := h
  refine ⟨?_, ?_⟩
  · rw [hstmt]
    exact .exprStmt he hsemicolon
  · rw [← endsOpen_withoutIds, hstmt]
    simp [Stmt.endsOpen]

/-! ### Declarations -/

theorem yields_method (hr : r.Derive) :
    Yields (method r) fun _ ts decl _ => Derives .method ts decl.withoutIds := by
  refine (yields_expectName _).bind fun name => (yields_acceptSymbol _).bind fun isGetter => ?_
  cases isGetter with
  | true =>
      refine (yields_inFunction (yields_block hr)).bind fun body =>
        yields_pure fun l next ts hts us hus vs hvs => ?_
      obtain ⟨opening, rfl, hopening⟩ := hus
      rw [hvs.1, List.append_nil]
      exact .getter hvs.2 (hts opening hopening)
  | false =>
      refine (yields_expectSymbol _ _).bind fun opening =>
        (yields_functionRest hr _ _).mono fun l us decl next h ts hts vs hvs ws hws => ?_
      rw [hts.1, hvs.1, hws.1]
      exact .method hws.2 (h opening hts.2)

theorem yields_usedTraitsFrom (bound : Nat) :
    Yields (usedTraitsFrom bound) fun _ ts used _ =>
      ∃ names, Names ts names ∧ Expr.withoutIdsAll used = names.map (.variable 0) := by
  induction bound with
  | zero =>
      refine (yields_expectName _).bind fun name => yields_freshId.bind fun id =>
        yields_pure fun l next ts hts us hus => ?_
      rw [hts, hus.1]
      exact ⟨[name], .one hus.2, rfl⟩
  | succ bound ih =>
      refine (yields_expectName _).bind fun name => yields_freshId.bind fun id =>
        (yields_acceptSymbol _).bind fun more => ?_
      cases more with
      | true =>
          refine ih.bind fun used => yields_pure fun l next us hus ts hts vs hvs ws hws => ?_
          obtain ⟨comma, rfl, hcomma⟩ := hts
          obtain ⟨names, hnames, hused⟩ := hus
          rw [hvs, hws.1, List.append_nil]
          exact ⟨name :: names, .more hws.2 hcomma hnames, by simp [hused]⟩
      | false =>
          refine yields_pure fun l next ts hts us hus vs hvs => ?_
          rw [hts.1, hus, hvs.1]
          exact ⟨[name], .one hvs.2, rfl⟩

/-- The members of one body after those of another. -/
def joinBodies (first second : ClassBody) : ClassBody :=
  ⟨first.traits ++ second.traits, first.methods ++ second.methods,
    first.classMethods ++ second.classMethods⟩

theorem joinBodies_none (body : ClassBody) :
    joinBodies body.withoutIds ⟨[], [], []⟩ = body.withoutIds := by
  obtain ⟨traits, methods, classMethods⟩ := body
  simp [joinBodies]

theorem yields_membersFrom (hr : r.Derive) (bound : Nat) (before : ClassBody) :
    Yields (membersFrom r bound before) fun _ ts body _ =>
    ∃ found, Derives .members ts found ∧ body.withoutIds = joinBodies before.withoutIds found := by
  induction bound generalizing before with
  | zero => exact yields_pure fun _ _ => ⟨_, .noMember, (joinBodies_none before).symm⟩
  | succ bound ih =>
      obtain ⟨traits, methods, classMethods⟩ := before
      refine (yields_checkSymbol _).bind fun closing => yields_atEnd.bind fun ended => ?_
      split
      · refine yields_pure fun l next ts hts us hus => ?_
        rw [hts.1, hus]
        exact ⟨_, .noMember, (joinBodies_none _).symm⟩
      · refine (yields_acceptKeyword _).bind fun isUse => ?_
        cases isUse with
        | true =>
            refine yields_remaining.bind fun left => (yields_usedTraitsFrom left).bind fun used =>
              (yields_expectSymbol _ _).bind fun semicolon => ?_
            refine (ih _).mono fun l us body next h ts hts vs hvs ws hws xs hxs ys hys zs hzs => ?_
            obtain ⟨⟨traits', methods', classMethods'⟩, hfound, hbody⟩ := h
            obtain ⟨names, hnames, hused⟩ := hvs
            obtain ⟨word, rfl, hword⟩ := hxs
            rw [hzs, hys.1, hws, hts.1]
            exact ⟨_, .useMember hword hnames hts.2 hfound, by simp [hbody, joinBodies, hused]⟩
        | false =>
            refine (yields_acceptKeyword _).bind fun isClass => ?_
            cases isClass with
            | true =>
                refine (yields_method hr).bind fun decl =>
                  (ih _).mono fun l us body next h ts hts vs hvs ws hws xs hxs ys hys => ?_
                obtain ⟨⟨traits', methods', classMethods'⟩, hfound, hbody⟩ := h
                obtain ⟨word, rfl, hword⟩ := hvs
                rw [hys, hxs.1, hws.1]
                simp only [List.nil_append, List.singleton_append]
                exact ⟨_, .classMember hword hts hfound, by simp [hbody, joinBodies]⟩
            | false =>
                refine (yields_method hr).bind fun decl =>
                  (ih _).mono fun l us body next h ts hts vs hvs ws hws xs hxs ys hys => ?_
                obtain ⟨⟨traits', methods', classMethods'⟩, hfound, hbody⟩ := h
                rw [hys, hxs.1, hws.1, hvs.1]
                simp only [List.nil_append]
                exact ⟨_, .instanceMember hts hfound, by simp [hbody, joinBodies]⟩

theorem yields_classBody (hr : r.Derive) (before after : Position) :
    Yields (classBody r before after) fun _ ts body _ => Derives .classBody ts body.withoutIds := by
  refine (yields_expectSymbol _ _).bind fun opening => yields_remaining.bind fun bound =>
    (yields_membersFrom hr bound _).bind fun body => ?_
  refine (yields_expectSymbol _ _).bind fun closing =>
    yields_pure fun l next ts hts us hus vs hvs ws hws => ?_
  obtain ⟨⟨traits, methods, classMethods⟩, hfound, hbody⟩ := hus
  rw [hts.1, hvs, hws.1, hbody]
  simp only [joinBodies, ClassBody.withoutIds, Expr.withoutIdsAll, FunctionDecl.withoutIdsAll,
    List.nil_append, List.append_nil, List.singleton_append]
  exact .classBody hws.2 hfound hts.2

theorem yields_superclass :
    Yields superclass fun _ ts parent _ => Superclass ts (Expr.withoutIds? parent) := by
  refine (yields_acceptSymbol _).bind fun given => ?_
  cases given with
  | true =>
      refine (yields_expectName _).bind fun name => yields_freshId.bind fun id =>
        yields_pure fun l next ts hts us hus vs hvs => ?_
      obtain ⟨less, rfl, hless⟩ := hvs
      rw [hts, hus.1]
      exact .some hless hus.2
  | false =>
      refine yields_pure fun l next ts hts => ?_
      rw [hts.1]
      exact .none

theorem yields_declarationRule (hr : r.Derive) :
    Yields (declarationRule r) fun l ts stmt _ => Derives (.declaration l) ts stmt.withoutIds := by
  refine (yields_acceptKeyword _).bind fun isClass => ?_
  cases isClass with
  | true =>
      refine (yields_expectName _).bind fun name => yields_superclass.bind fun parent =>
        (yields_classBody hr _ _).bind fun body => ?_
      refine yields_pure fun l next ts hts us hus vs hvs ws hws => ?_
      obtain ⟨word, rfl, hword⟩ := hws
      rw [hvs.1, List.append_nil]
      simp only [List.singleton_append]
      exact .classDecl hword hvs.2 hus hts
  | false =>
      refine (yields_acceptKeyword _).bind fun isTrait => ?_
      cases isTrait with
      | true =>
          refine (yields_expectName _).bind fun name => (yields_classBody hr _ _).bind fun body =>
            yields_pure fun l next ts hts us hus vs hvs ws hws => ?_
          obtain ⟨word, rfl, hword⟩ := hvs
          rw [hws.1, hus.1, List.append_nil]
          exact .traitDecl hword hus.2 hts
      | false =>
          refine yields_startsFunction.bind fun isFunction => ?_
          cases isFunction with
          | true =>
              refine (yields_accept _).bind fun found => (yields_expectName _).bind fun name =>
                (yields_expectSymbol _ _).bind fun opening => ?_
              refine (yields_functionRest hr _ _).bind fun decl =>
                yields_pure fun l next ts hts us hus vs hvs ws hws xs hxs ys hys zs hzs => ?_
              obtain ⟨word, hnext, hword⟩ := hxs.2 rfl
              cases found with
              | none =>
                  have hnone := hws.2 word (by simpa [hws.1, hxs.1] using hnext)
                  simp at hnone
              | some taken =>
                  have htaken : taken = word := by simpa [hws.1] using hnext
                  rw [hzs.1, hys.1, hxs.1, hws.1, hvs.1, hus.1, List.append_nil, htaken]
                  exact .funDecl hword hvs.2 (hts opening hus.2)
          | false =>
              refine (yields_acceptKeyword _).bind fun isVariable => ?_
              cases isVariable with
              | true =>
                  refine (yields_variableDeclaration hr).mono
                    fun l us stmt next h ts hts vs hvs ws hws xs hxs => ?_
                  obtain ⟨word, rfl, hword⟩ := hts
                  rw [hxs.1, hws.1, hvs.1]
                  exact .varDeclaration (h.2 word hword)
              | false =>
                  refine (yields_statement hr).mono
                    fun l us stmt next h ts hts vs hvs ws hws xs hxs => ?_
                  rw [hxs.1, hws.1, hvs.1, hts.1]
                  exact .statement h.1

/-! ### Programs -/

theorem derive_rules (depth : Nat) : (rules depth).Derive := by
  induction depth with
  | zero =>
      have hrefuse : Yields (fail .missingExpression : Parser Stmt) fun l ts stmt _ =>
          Derives (.declaration l) ts stmt.withoutIds := yields_fail _
      exact ⟨yields_fail _, yields_fail _, yields_fail _, yields_fail _, yields_fail _,
        yields_fail _, yields_fail _, yields_fail _,
        yields_recovering hrefuse⟩
  | succ depth ih =>
      have hunary := yields_unary ih
      have hfactor := yields_level .factor hunary
      have hterm := yields_level .term hfactor
      exact ⟨yields_expression ih, yields_assignment ih, yields_conditional ih,
        yields_level .comparison hterm, hterm, hfactor, hunary,
        yields_statement ih, yields_recovering (yields_declarationRule ih)⟩

end Parse
end TraitScript
