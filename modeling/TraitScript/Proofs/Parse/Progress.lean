import Mathlib.Logic.Function.Iterate
import TraitScript.Proofs.Parse.Parallel

/-!
# Reading always gets on

Every rule that succeeds has read a token, a rule that fails has not gone back, and recovery drops
the token at fault. So no loop runs more rounds than there are tokens, no rule is re-entered more
often than there are tokens, and the bounds that the rules carry are never what ends a reading: with
any larger bounds, and whatever would answer a re-entry beyond them, it goes the same.
-/

namespace TraitScript.Parse

variable {w : Twin} {n : Nat} {r r' : Rules}

/-! ### Operators by precedence -/

theorem parallel_unary (hr : r.Parallel w n r') :
    Parallel w n (unary r) (unary r') (Fewer n w.Exprs) := by
  apply (parallel_accept (blind_isAnySymbol _)).bind
  rintro a b k - (⟨rfl, rfl, rfl⟩ | ⟨t, t', rfl, rfl, ht, -, hk⟩)
  · exact parallel_call hr
  · apply (hr.unary k (by omega)).bind
    intro right right' j _ ⟨hj, hright⟩
    exact parallel_pure _ _ ⟨by omega, fun marks => .unary (w.of_token ht) (hright marks)⟩

/-- With fewer tokens left less is asked of the re-entered rules. -/
theorem Rules.Parallel.mono (hr : r.Parallel w n r') {k : Nat} (hk : k ≤ n) :
    r.Parallel w k r' where
  expression j hj := hr.expression j (by omega)
  assignment j hj := hr.assignment j (by omega)
  conditional j hj := hr.conditional j (by omega)
  comparison j hj := hr.comparison j (by omega)
  term j hj := hr.term j (by omega)
  factor j hj := hr.factor j (by omega)
  unary j hj := hr.unary j (by omega)
  statement j hj := hr.statement j (by omega)
  declaration j hj := hr.declaration j (by omega)

/-- One level of operators above another. -/
theorem parallel_level {operand : Rules → Parser Expr} {operator : Token → Bool}
    {node : Expr → Token → Expr → Expr} (hoperator : w.Blind operator) (hnode : w.Joins node)
    (hoperand : ∀ {n}, r.Parallel w n r' → Parallel w n (operand r) (operand r') (Fewer n w.Exprs))
    (hr : r.Parallel w n r') :
    Parallel w n (leftAssociative (operand r) operator node)
      (leftAssociative (operand r') operator node) (Fewer n w.Exprs) :=
  parallel_leftAssociative hoperator hnode (fun _ hk => hoperand (hr.mono hk)) (Nat.le_refl n)

theorem parallel_factor (hr : r.Parallel w n r') :
    Parallel w n (factor r) (factor r') (Fewer n w.Exprs) :=
  parallel_level (blind_isAnySymbol _) joins_binary parallel_unary hr

theorem parallel_term (hr : r.Parallel w n r') :
    Parallel w n (term r) (term r') (Fewer n w.Exprs) :=
  parallel_level (blind_isAnySymbol _) joins_binary parallel_factor hr

theorem parallel_comparison (hr : r.Parallel w n r') :
    Parallel w n (comparison r) (comparison r') (Fewer n w.Exprs) :=
  parallel_level (blind_isAnySymbol _) joins_binary parallel_term hr

theorem parallel_equality (hr : r.Parallel w n r') :
    Parallel w n (equality r) (equality r') (Fewer n w.Exprs) :=
  parallel_level (blind_isAnySymbol _) joins_binary parallel_comparison hr

theorem parallel_logicalAnd (hr : r.Parallel w n r') :
    Parallel w n (logicalAnd r) (logicalAnd r') (Fewer n w.Exprs) :=
  parallel_level (blind_isKeyword _) joins_logical parallel_equality hr

theorem parallel_logicalOr (hr : r.Parallel w n r') :
    Parallel w n (logicalOr r) (logicalOr r') (Fewer n w.Exprs) :=
  parallel_level (blind_isKeyword _) joins_logical parallel_logicalAnd hr

theorem parallel_conditional (hr : r.Parallel w n r') :
    Parallel w n (conditional r) (conditional r') (Fewer n w.Exprs) := by
  apply (parallel_logicalOr hr).bind
  intro condition condition' k _ ⟨hk, hcondition⟩
  apply (parallel_acceptSymbol _).bind
  rintro more more' j - (⟨rfl, rfl, rfl⟩ | ⟨rfl, rfl, hj⟩)
  · exact parallel_pure _ _ ⟨hk, hcondition⟩
  · apply (hr.expression j (by omega)).bind
    intro thenBranch thenBranch' i _ ⟨hi, hthen⟩
    apply (parallel_expectSymbol _ _).bind
    intro _ _ l _ ⟨_, hl⟩
    apply (hr.conditional l (by omega)).bind
    intro elseBranch elseBranch' m _ ⟨hm, helse⟩
    exact parallel_pure _ _
      ⟨by omega, fun marks => .conditional (hcondition marks) (hthen marks) (helse marks)⟩

/-- The same targets can be assigned to. -/
theorem exprs_assignTo {target target' value value' : Expr} (htarget : w.Exprs target target')
    (hvalue : w.Exprs value value') :
    Option.Rel w.Exprs (assignTo target value) (assignTo target' value') := by
  -- which node it is does not depend on the marks, so looking under no marks is enough to tell the
  -- cases apart
  have hshape := htarget []
  cases hshape with
  | «variable» _ =>
      apply Option.Rel.some
      intro marks
      cases htarget marks with
      | «variable» hname => exact .assign hname (hvalue marks)
  | get _ _ =>
      apply Option.Rel.some
      intro marks
      cases htarget marks with
      | get hobject hname => exact .set hobject hname (hvalue marks)
  | _ => exact .none

theorem parallel_assignment (hr : r.Parallel w n r') :
    Parallel w n (assignment r) (assignment r') (Fewer n w.Exprs) := by
  apply (parallel_conditional hr).bind
  intro target target' k _ ⟨hk, htarget⟩
  apply (parallel_accept (blind_isSymbol _)).bind
  rintro a b j - (⟨rfl, rfl, rfl⟩ | ⟨equals, equals', rfl, rfl, hequals, -, hj⟩)
  · exact parallel_pure _ _ ⟨hk, htarget⟩
  · apply (hr.assignment j (by omega)).bind
    intro value value' i _ ⟨hi, hvalue⟩
    rcases rel_cases (exprs_assignTo htarget hvalue) with
      ⟨hleft, hright⟩ | ⟨expr, expr', hleft, hright, hexpr⟩
    · rw [hleft, hright]
      apply (parallel_report hequals _).bind
      rintro _ _ l - rfl
      exact parallel_pure _ _ ⟨by omega, htarget⟩
    · rw [hleft, hright]
      exact parallel_pure _ _ ⟨by omega, hexpr⟩

theorem parallel_expression (hr : r.Parallel w n r') :
    Parallel w n (expression r) (expression r') (Fewer n w.Exprs) :=
  parallel_level (blind_isAnySymbol _) joins_binary parallel_assignment hr

/-! ### Simple statements -/

theorem parallel_expressionStatement (hr : r.Parallel w n r') :
    Parallel w n (expressionStatement r) (expressionStatement r') (Fewer n w.Stmts) := by
  apply (parallel_expression hr).bind
  intro value value' k _ ⟨hk, hvalue⟩
  apply (parallel_expectSymbol _ _).bind
  intro _ _ j _ _
  exact parallel_pure _ _ ⟨by omega, fun marks => .expression (hvalue marks)⟩

theorem parallel_printStatement (hr : r.Parallel w n r') :
    Parallel w n (printStatement r) (printStatement r') (Fewer n w.Stmts) := by
  apply (parallel_expression hr).bind
  intro value value' k _ ⟨hk, hvalue⟩
  apply (parallel_expectSymbol _ _).bind
  intro _ _ j _ _
  exact parallel_pure _ _ ⟨by omega, fun marks => .print (hvalue marks)⟩

theorem parallel_expressionUnless (hr : r.Parallel w n r') (symbol : Symbol) :
    Parallel w n (expressionUnless r symbol) (expressionUnless r' symbol) fun e e' _ =>
      w.ExprOptions e e' := by
  apply (parallel_checkSymbol _).bind
  rintro _ closing k - ⟨rfl, -, rfl⟩
  cases closing with
  | true => exact parallel_pure _ _ fun _ => .none
  | false =>
      apply (parallel_expression hr).bind
      intro e e' j _ ⟨_, he⟩
      exact parallel_pure _ _ fun marks => .some (he marks)

theorem parallel_returnStatement (hr : r.Parallel w n r') {keyword keyword' : Token}
    (hkeyword : w.token keyword keyword') :
    Parallel w n (returnStatement r keyword) (returnStatement r' keyword') (Fewer n w.Stmts) := by
  apply (parallel_expressionUnless hr _).bind
  intro value value' k _ hvalue
  apply (parallel_expectSymbol _ _).bind
  intro _ _ j _ ⟨_, hj⟩
  exact parallel_pure _ _ ⟨by omega, fun marks => .returnValue (w.of_token hkeyword) (hvalue marks)⟩

theorem parallel_jumpStatement {keyword keyword' : Token} (hkeyword : w.token keyword keyword')
    (kind : Jump) :
    Parallel w n (jumpStatement keyword kind) (jumpStatement keyword' kind) (Fewer n w.Stmts) := by
  apply parallel_insideLoop.bind
  rintro _ inside k - ⟨rfl, rfl⟩
  cases inside with
  | true =>
      apply (parallel_expectSymbol _ _).bind
      intro _ _ j _ ⟨_, hj⟩
      exact parallel_pure _ _ ⟨by omega, fun marks => .jump (w.of_token hkeyword)⟩
  | false => exact parallel_throw ⟨rfl, hkeyword⟩

theorem parallel_initialValue (hr : r.Parallel w n r') :
    Parallel w n (initialValue r) (initialValue r') fun e e' _ => w.ExprOptions e e' := by
  apply (parallel_acceptSymbol _).bind
  rintro found found' k - (⟨rfl, rfl, rfl⟩ | ⟨rfl, rfl, hk⟩)
  · exact parallel_pure _ _ fun _ => .none
  · apply (parallel_expression (hr.mono (by omega))).bind
    intro e e' j _ ⟨_, he⟩
    exact parallel_pure _ _ fun marks => .some (he marks)

theorem parallel_variableDeclaration (hr : r.Parallel w n r') :
    Parallel w n (variableDeclaration r) (variableDeclaration r') (Fewer n w.Stmts) := by
  apply (parallel_expectName _).bind
  intro name name' k _ ⟨hname, hidentifier, hk⟩
  apply (parallel_initialValue (hr.mono (by omega))).bind
  intro initial initial' j _ hinitial
  apply (parallel_expectSymbol _ _).bind
  intro _ _ i _ _
  exact parallel_pure _ _
    ⟨by omega, fun marks => .variable (w.of_declared hname hidentifier) (hinitial marks)⟩

/-! ### Branches and loops -/

theorem parallel_elseBranch (hr : r.Parallel w n r') {k : Nat} (hk : k ≤ n) :
    Parallel w k (elseBranch r) (elseBranch r') fun stmt stmt' _ => w.StmtOptions stmt stmt' := by
  apply (parallel_acceptKeyword _).bind
  rintro found found' j - (⟨rfl, rfl, rfl⟩ | ⟨rfl, rfl, hj⟩)
  · exact parallel_pure _ _ fun _ => .none
  · apply (hr.statement j (by omega)).bind
    intro stmt stmt' i _ ⟨_, hstmt⟩
    exact parallel_pure _ _ fun marks => .some (hstmt marks)

theorem parallel_ifStatement (hr : r.Parallel w n r') :
    Parallel w n (ifStatement r) (ifStatement r') (Fewer n w.Stmts) := by
  apply (parallel_expectSymbol _ _).bind
  intro _ _ k _ ⟨_, hk⟩
  apply (parallel_expression (hr.mono (by omega))).bind
  intro condition condition' j _ ⟨_, hcondition⟩
  apply (parallel_expectSymbol _ _).bind
  intro _ _ i _ _
  apply (hr.statement i (by omega)).bind
  intro thenBranch thenBranch' l _ ⟨_, hthen⟩
  apply (parallel_elseBranch hr (by omega)).bind
  intro otherBranch otherBranch' m _ hother
  exact parallel_pure _ _
    ⟨by omega, fun marks => .ifElse (hcondition marks) (hthen marks) (hother marks)⟩

theorem parallel_whileStatement (hr : r.Parallel w n r') :
    Parallel w n (whileStatement r) (whileStatement r') (Fewer n w.Stmts) := by
  apply (parallel_expectSymbol _ _).bind
  intro _ _ k _ ⟨_, hk⟩
  apply (parallel_expression (hr.mono (by omega))).bind
  intro condition condition' j _ ⟨_, hcondition⟩
  apply (parallel_expectSymbol _ _).bind
  intro _ _ i _ _
  apply (parallel_inLoop (hr.statement i (by omega))).bind
  intro body body' l _ ⟨_, hbody⟩
  exact parallel_pure _ _ ⟨by omega, fun marks => .whileLoop (hcondition marks) (hbody marks)⟩

theorem parallel_forInitial (hr : r.Parallel w n r') :
    Parallel w n (forInitial r) (forInitial r') fun stmt stmt' _ => w.StmtOptions stmt stmt' := by
  apply (parallel_acceptSymbol _).bind
  rintro none none' k - (⟨rfl, rfl, rfl⟩ | ⟨rfl, rfl, hk⟩)
  · apply (parallel_acceptKeyword _).bind
    rintro declares declares' j - (⟨rfl, rfl, rfl⟩ | ⟨rfl, rfl, hj⟩)
    · apply (parallel_expressionStatement hr).bind
      intro stmt stmt' i _ ⟨_, hstmt⟩
      exact parallel_pure _ _ fun marks => .some (hstmt marks)
    · apply (parallel_variableDeclaration (hr.mono (by omega))).bind
      intro stmt stmt' i _ ⟨_, hstmt⟩
      exact parallel_pure _ _ fun marks => .some (hstmt marks)
  · exact parallel_pure _ _ fun _ => .none

theorem parallel_forStatement (hr : r.Parallel w n r') :
    Parallel w n (forStatement r) (forStatement r') (Fewer n w.Stmts) := by
  apply (parallel_expectSymbol _ _).bind
  intro _ _ k _ ⟨_, hk⟩
  apply (parallel_forInitial (hr.mono (by omega))).bind
  intro initial initial' j _ hinitial
  apply (parallel_expressionUnless (hr.mono (by omega)) _).bind
  intro condition condition' i _ hcondition
  apply (parallel_expectSymbol _ _).bind
  intro _ _ l _ _
  apply (parallel_expressionUnless (hr.mono (by omega)) _).bind
  intro increment increment' m _ hincrement
  apply (parallel_expectSymbol _ _).bind
  intro _ _ p _ _
  apply (parallel_inLoop (hr.statement p (by omega))).bind
  intro body body' q _ ⟨_, hbody⟩
  exact parallel_pure _ _
    ⟨by omega, fun marks => .forLoop false (hinitial _) (hcondition _) (hincrement _) (hbody _)⟩

theorem behind_of_parallel {α β : Type} {R : α → β → Prop} {rule : Rules → Parser α}
    {rule' : Rules → Parser β} (hr : r.Parallel w n r')
    (h : ∀ {k}, r.Parallel w k r' → Parallel w k (rule r) (rule' r') (Fewer k R)) :
    Behind w n R (rule r) (rule' r') :=
  behind_of_fewer fun _ hk => h (hr.mono (Nat.le_of_lt hk))

theorem parallel_blockStatement (hr : r.Parallel w n r') {k : Nat} (hk : k < n) :
    Parallel w k (.block <$> block r) (.block <$> block r') (Fewer k w.Stmts) := by
  rw [← bind_pure_comp, ← bind_pure_comp]
  apply (parallel_block hr hk).bind
  intro statements statements' j _ ⟨hj, hstatements⟩
  exact parallel_pure _ _ ⟨hj, fun marks => .block false (hstatements _)⟩

theorem behind_statementFrom (hr : r.Parallel w n r') {t t' : Token} (ht : w.token t t') :
    Option.Rel (Behind w n w.Stmts) (statementFrom r t) (statementFrom r' t') := by
  unfold statementFrom
  rw [w.kind_eq ht]
  split
  · exact .some (behind_of_parallel hr parallel_forStatement)
  · exact .some (behind_of_parallel hr parallel_ifStatement)
  · exact .some (behind_of_parallel hr parallel_whileStatement)
  · exact .some (behind_of_fewer fun _ hk => parallel_returnStatement
      (hr.mono (Nat.le_of_lt hk)) ht)
  · exact .some (behind_of_fewer fun _ _ => parallel_jumpStatement ht _)
  · exact .some (behind_of_fewer fun _ _ => parallel_jumpStatement ht _)
  · exact .some (behind_of_parallel hr parallel_printStatement)
  · exact .some (behind_of_fewer fun _ hk => parallel_blockStatement hr hk)
  · exact .none

theorem parallel_statement (hr : r.Parallel w n r') :
    Parallel w n (statement r) (statement r') (Fewer n w.Stmts) := by
  apply parallel_dispatch
  · intro t heof
    simp only [statementFrom, heof]
  · intro t t' ht
    exact behind_statementFrom hr ht
  · exact parallel_expressionStatement hr

/-! ### Classes, traits and functions -/

theorem parallel_method (hr : r.Parallel w n r') :
    Parallel w n (method r) (method r') (Fewer n w.Functions) := by
  apply (parallel_expectName _).bind
  intro name name' k _ ⟨hname, _, hk⟩
  apply (parallel_acceptSymbol _).bind
  rintro isGetter isGetter' j - (⟨rfl, rfl, rfl⟩ | ⟨rfl, rfl, hj⟩)
  · apply (parallel_expectSymbol _ _).bind
    intro _ _ i _ ⟨_, hi⟩
    apply (parallel_functionRest hr (by omega) (.some hname) _).mono
    intro decl decl' l _ ⟨hl, hdecl, _⟩
    exact ⟨by omega, hdecl⟩
  · apply (parallel_inFunction (parallel_block hr (by omega))).bind
    intro body body' i _ ⟨hi, hbody⟩
    exact parallel_pure _ _
      ⟨by omega, fun marks => .intro false (.some (w.of_token hname)) .nil (hbody _)⟩

theorem parallel_usedTraitsFrom {bound bound' : Nat} (hbound : n ≤ bound) (hbound' : n ≤ bound') :
    Parallel w n (usedTraitsFrom bound) (usedTraitsFrom bound') (Fewer n w.ExprLists) := by
  induction bound generalizing n bound' with
  | zero =>
      cases bound' with
      | zero =>
          apply (parallel_expectName _).bind
          intro _ _ k _ ⟨_, _, hk⟩
          omega
      | succ bound' =>
          apply (parallel_expectName _).bind
          intro _ _ k _ ⟨_, _, hk⟩
          omega
  | succ bound ih =>
      cases bound' with
      | zero =>
          apply (parallel_expectName _).bind
          intro _ _ k _ ⟨_, _, hk⟩
          omega
      | succ bound' =>
          apply (parallel_expectName _).bind
          intro name name' k _ ⟨hname, hidentifier, hk⟩
          apply parallel_freshId.bind
          rintro id _ j - ⟨rfl, hleast, rfl⟩
          have hused : w.Exprs (.variable id name) (.variable (id + w.shift) name') :=
            fun _ => .variable (w.of_name hname hidentifier hleast)
          apply (parallel_acceptSymbol _).bind
          rintro more more' i - (⟨rfl, rfl, rfl⟩ | ⟨rfl, rfl, hi⟩)
          · exact parallel_pure _ _ ⟨by omega, fun marks => .cons (hused marks) .nil⟩
          · apply (ih (n := i) (by omega) (by omega)).bind
            intro used used' l _ ⟨hl, hrest⟩
            exact parallel_pure _ _ ⟨by omega, fun marks => .cons (hused marks) (hrest marks)⟩

theorem membersFrom_atEnd (r : Rules) (bound : Nat) (body : ClassBody) :
    StopsAtEnd (membersFrom r bound body) body := by
  intro s h
  cases bound with
  | zero => rfl
  | succ bound =>
      unfold membersFrom
      simp only [Bind.bind, EStateM.bind, checkSymbol, check, State.check, atEnd, h]
      rfl

/-- Members up to the closing brace or the end; each round reads a token. -/
theorem parallel_membersFrom (hr : r.Parallel w n r') {bound bound' k : Nat} (hk : k ≤ n)
    (hbound : k ≤ bound) (hbound' : k ≤ bound') {body body' : ClassBody}
    (hbody : w.Bodies body body') :
    Parallel w k (membersFrom r bound body) (membersFrom r' bound' body') fun body body' _ =>
      w.Bodies body body' := by
  induction bound generalizing bound' k body body' with
  | zero =>
      obtain rfl : k = 0 := Nat.le_zero.1 hbound
      exact parallel_atStop (membersFrom_atEnd _ _ _) (membersFrom_atEnd _ _ _) hbody
  | succ bound ih =>
      cases bound' with
      | zero =>
          obtain rfl : k = 0 := Nat.le_zero.1 hbound'
          exact parallel_atStop (membersFrom_atEnd _ _ _) (membersFrom_atEnd _ _ _) hbody
      | succ bound' =>
          apply (parallel_checkSymbol _).bind
          rintro _ closing j - ⟨rfl, -, rfl⟩
          apply parallel_atEnd.bind
          rintro _ _ i - ⟨rfl, rfl, rfl⟩
          by_cases hstop : (closing || decide (i = 0)) = true
          · rw [hstop]
            exact parallel_pure _ _ hbody
          · rw [Bool.not_eq_true] at hstop
            rw [hstop]
            apply (parallel_acceptKeyword _).bind
            rintro isUse isUse' j - (⟨rfl, rfl, rfl⟩ | ⟨rfl, rfl, hj⟩)
            · apply (parallel_acceptKeyword _).bind
              rintro isClass isClass' l - (⟨rfl, rfl, rfl⟩ | ⟨rfl, rfl, hl⟩)
              · apply (parallel_method (hr.mono hk)).bind
                intro decl decl' m _ ⟨hm, hdecl⟩
                apply ih (by omega) (by omega) (by omega)
                intro outside inside
                cases hbody outside inside with
                | intro htraits hmethods hclassMethods =>
                  exact .intro htraits (hmethods.concat (hdecl inside)) hclassMethods
              · apply (parallel_method (hr.mono (by omega))).bind
                intro decl decl' m _ ⟨hm, hdecl⟩
                apply ih (by omega) (by omega) (by omega)
                intro outside inside
                cases hbody outside inside with
                | intro htraits hmethods hclassMethods =>
                  exact .intro htraits hmethods (hclassMethods.concat (hdecl inside))
            · apply parallel_remaining.bind
              rintro _ _ l - ⟨rfl, rfl, rfl⟩
              apply (parallel_usedTraitsFrom (Nat.le_refl _) (Nat.le_refl _)).bind
              intro used used' m _ ⟨hm, hused⟩
              apply (parallel_expectSymbol _ _).bind
              intro _ _ p _ _
              apply ih (by omega) (by omega) (by omega)
              intro outside inside
              cases hbody outside inside with
              | intro htraits hmethods hclassMethods =>
                exact .intro (htraits.append (hused outside)) hmethods hclassMethods

theorem parallel_classBody (hr : r.Parallel w n r') (before after : Position) :
    Parallel w n (classBody r before after) (classBody r' before after) (Fewer n w.Bodies) := by
  apply (parallel_expectSymbol _ _).bind
  intro _ _ k _ ⟨_, hk⟩
  apply parallel_remaining.bind
  rintro _ _ j - ⟨rfl, rfl, rfl⟩
  apply (parallel_membersFrom hr (by omega) (Nat.le_refl _) (Nat.le_refl _) fun _ _ =>
    .intro .nil .nil .nil).bind
  intro body body' i _ hbody
  apply (parallel_expectSymbol _ _).bind
  intro _ _ l _ _
  exact parallel_pure _ _ ⟨by omega, hbody⟩

theorem parallel_superclass :
    Parallel w n superclass superclass fun e e' _ => w.ExprOptions e e' := by
  apply (parallel_acceptSymbol _).bind
  rintro found found' k - (⟨rfl, rfl, rfl⟩ | ⟨rfl, rfl, -⟩)
  · exact parallel_pure _ _ fun _ => .none
  · apply (parallel_expectName _).bind
    intro name name' j _ ⟨hname, hidentifier, _⟩
    apply parallel_freshId.bind
    rintro id _ i - ⟨rfl, hleast, rfl⟩
    exact parallel_pure _ _ fun _ => .some (.variable (w.of_name hname hidentifier hleast))

theorem parallel_classDeclaration (hr : r.Parallel w n r') :
    Parallel w n (classDeclaration r) (classDeclaration r') (Fewer n w.Stmts) := by
  apply (parallel_expectName _).bind
  intro name name' k _ ⟨hname, hidentifier, hk⟩
  apply parallel_superclass.bind
  intro parent parent' j _ hparent
  apply (parallel_classBody (hr.mono (by omega)) _ _).bind
  intro body body' i _ ⟨_, hbody⟩
  have hdecl : w.Stmts (.classDecl name parent body) (.classDecl name' parent' body') := by
    intro marks
    cases hparent marks with
    | none => exact .classDecl (w.of_named hname hidentifier) (hbody _ _)
    | some h => exact .subclassDecl (w.of_named hname hidentifier) h (hbody _ _)
  exact parallel_pure _ _ ⟨by omega, hdecl⟩

theorem parallel_traitDeclaration (hr : r.Parallel w n r') :
    Parallel w n (traitDeclaration r) (traitDeclaration r') (Fewer n w.Stmts) := by
  apply (parallel_expectName _).bind
  intro name name' k _ ⟨hname, hidentifier, hk⟩
  apply (parallel_classBody (hr.mono (by omega)) _ _).bind
  intro body body' i _ ⟨_, hbody⟩
  exact parallel_pure _ _
    ⟨by omega, fun marks => .traitDecl (w.of_named hname hidentifier) (hbody _ _)⟩

theorem parallel_functionDeclaration (hr : r.Parallel w n r') :
    Parallel w n (functionDeclaration r) (functionDeclaration r') (Fewer n w.Stmts) := by
  apply (parallel_expectName _).bind
  intro name name' k _ ⟨hname, hidentifier, hk⟩
  apply (parallel_expectSymbol _ _).bind
  intro _ _ j _ ⟨_, hj⟩
  apply (parallel_functionRest hr (by omega) (.some hname) _).bind
  intro decl decl' i _ ⟨hi, hdecl, hleft, hright⟩
  have hnames : ∀ mark, Option.Rel (w.trees.named mark) decl.name decl'.name := by
    intro mark
    rw [hleft, hright]
    exact .some (w.of_named hname hidentifier)
  exact parallel_pure _ _ ⟨by omega, fun marks => .function (hnames _) (hdecl marks)⟩

theorem parallel_startsFunction :
    Parallel w n startsFunction startsFunction fun a b k => b = a ∧ (a = true → 0 < n) ∧ k = n := by
  intro s s' hs hn
  have hsame : s'.startsFunction = s.startsFunction ∧ (s.startsFunction = true → 0 < n) := by
    unfold State.startsFunction
    rcases hs.front with ⟨hleft, hright⟩ | ⟨t, t', rest, rest', hleft, hright, ht, hrest⟩
    · rw [hleft, hright]
      exact ⟨rfl, fun h => by cases h⟩
    · have hpos : 0 < n := by
        rw [← hn, hleft]
        exact Nat.succ_pos _
      rw [hleft, hright]
      cases hrest with
      | nil => exact ⟨rfl, fun _ => hpos⟩
      | cons hu _ =>
        exact ⟨by simp only [blind_isKeyword .funWord ht, blind_isIdentifier hu], fun _ => hpos⟩
  exact ⟨hs, List.suffix_refl _, rfl, hsame.1, hsame.2, hn⟩

theorem parallel_declarationRule (hr : r.Parallel w n r') :
    Parallel w n (declarationRule r) (declarationRule r') (Fewer n w.Stmts) := by
  apply (parallel_acceptKeyword _).bind
  rintro isClass isClass' k - (⟨rfl, rfl, rfl⟩ | ⟨rfl, rfl, hk⟩)
  · apply (parallel_acceptKeyword _).bind
    rintro isTrait isTrait' j - (⟨rfl, rfl, rfl⟩ | ⟨rfl, rfl, hj⟩)
    · apply parallel_startsFunction.bind
      rintro _ isFunction i - ⟨rfl, hpos, rfl⟩
      cases isFunction with
      | true =>
          apply parallel_advance.bind
          intro _ _ l _ hl
          have hless := hl (hpos rfl)
          exact (parallel_functionDeclaration (hr.mono (by omega))).mono fun _ _ _ _ h =>
            ⟨by have := h.1; omega, h.2⟩
      | false =>
          apply (parallel_acceptKeyword _).bind
          rintro isVar isVar' l - (⟨rfl, rfl, rfl⟩ | ⟨rfl, rfl, hl⟩)
          · exact parallel_statement hr
          · exact (parallel_variableDeclaration (hr.mono (by omega))).mono fun _ _ _ _ h =>
              ⟨by have := h.1; omega, h.2⟩
    · exact (parallel_traitDeclaration (hr.mono (by omega))).mono fun _ _ _ _ h =>
        ⟨by have := h.1; omega, h.2⟩
  · exact (parallel_classDeclaration (hr.mono (by omega))).mono fun _ _ _ _ h =>
      ⟨by have := h.1; omega, h.2⟩

theorem parallel_declaration (hr : r.Parallel w n r') :
    Parallel w n (declaration r) (declaration r') fun a b k =>
      (0 < n → k < n) ∧ Option.Rel w.Stmts a b :=
  parallel_recovering (parallel_declarationRule hr)

/-! ### All rules together -/

/-- Rules whose re-entries have one token less to go. -/
theorem Rules.Parallel.step (hr : r.Parallel w n r') : r.step.Parallel w (n + 1) r'.step where
  expression _ hk := parallel_expression (hr.mono (Nat.le_of_lt_succ hk))
  assignment _ hk := parallel_assignment (hr.mono (Nat.le_of_lt_succ hk))
  conditional _ hk := parallel_conditional (hr.mono (Nat.le_of_lt_succ hk))
  comparison _ hk := parallel_comparison (hr.mono (Nat.le_of_lt_succ hk))
  term _ hk := parallel_term (hr.mono (Nat.le_of_lt_succ hk))
  factor _ hk := parallel_factor (hr.mono (Nat.le_of_lt_succ hk))
  unary _ hk := parallel_unary (hr.mono (Nat.le_of_lt_succ hk))
  statement _ hk := parallel_statement (hr.mono (Nat.le_of_lt_succ hk))
  declaration _ hk := parallel_declaration (hr.mono (Nat.le_of_lt_succ hk))

/-- After more re-entries than there are tokens it makes no difference which rules would have been
asked next. -/
theorem parallel_iterate (r r' : Rules) (n : Nat) :
    (Rules.step^[n] r).Parallel w n (Rules.step^[n] r') := by
  induction n with
  | zero =>
      constructor
      all_goals
        intro k hk
        omega
  | succ n ih =>
      rw [Function.iterate_succ_apply', Function.iterate_succ_apply']
      exact ih.step

theorem rules_eq_iterate (depth : Nat) : rules depth = Rules.step^[depth] Rules.refuse := by
  induction depth with
  | zero => rfl
  | succ depth ih => rw [Function.iterate_succ_apply', ← ih, rules]

/-- Rules that are iterated often enough from any two bases. -/
theorem parallel_iterate_of_le (r r' : Rules) {depth depth' : Nat} (h : n ≤ depth)
    (h' : n ≤ depth') :
    (Rules.step^[depth] r).Parallel w n (Rules.step^[depth'] r') := by
  have hsplit : ∀ {d : Nat} (r : Rules), n ≤ d →
      Rules.step^[d] r = Rules.step^[n] (Rules.step^[d - n] r) := by
    intro d r hd
    rw [← Function.iterate_add_apply, Nat.add_sub_cancel' hd]
  rw [hsplit r h, hsplit r' h']
  exact parallel_iterate _ _ n

theorem parallel_refuse : Rules.refuse.Parallel w n Rules.refuse where
  expression _ _ := parallel_fail _
  assignment _ _ := parallel_fail _
  conditional _ _ := parallel_fail _
  comparison _ _ := parallel_fail _
  term _ _ := parallel_fail _
  factor _ _ := parallel_fail _
  unary _ _ := parallel_fail _
  statement _ _ := parallel_fail _
  declaration _ _ := parallel_recovering (parallel_fail _)

/-- The rules get on whatever depth they have. -/
theorem parallel_rules (depth : Nat) : (rules depth).Parallel w n (rules depth) := by
  induction depth with
  | zero => exact parallel_refuse
  | succ depth ih => exact ih.step.mono (Nat.le_succ n)

end TraitScript.Parse
