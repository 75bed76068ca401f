import TraitScript.Proofs.Parse.Lookahead

/-!
# What is derivable is read

Tokens that form a part of a program are read as that part wherever the token after them does not
continue it: reading takes exactly these tokens, records no error, and returns the derived tree up
to ids. That a rule never turns to another one by mistake is a matter of first tokens. Rules that
are re-entered have read a token before, so the number of tokens bounds how deeply they are nested.
-/

namespace TraitScript.Parse

open Grammar

/-! ### Parts -/

/-- With no else after it, a statement is complete. -/
def Complete (stmt : Stmt) : Option Token → Prop :=
  fun next => stmt.endsOpen = true → Lacks (·.isKeyword .elseWord) next

/-- The tokens of a part are read where the next token allows it. Parts whose first token decides
what is read come with it. -/
def Recognized : (part : Part) → List Token → part.Tree → Prop
  | .expr rank, ts, e =>
    ∀ d l, ts.length ≤ d → Takes (rule (rules d) rank) l ts (Follows rank) (·.withoutIds = e)
  | .operators level left, ts, e =>
    ∀ d l bound read, ts.length ≤ d → ts.length ≤ bound → Expr.withoutIds read = left →
      Takes (leftAssociativeFrom (rule (rules d) level.operand)
        (fun token => level.isOperator token.kind) level.node bound read) l ts
        (Follows level.rank) (·.withoutIds = e)
  | .accesses left, ts, e =>
    ∀ d l bound read, ts.length ≤ d → ts.length ≤ bound → Expr.withoutIds read = left →
      Takes (accessesFrom (rules d) bound read) l ts (Follows .call) (·.withoutIds = e)
  | .argumentList, ts, args =>
    ∀ d l bound count, ts.length < d → ts.length ≤ bound → count + args.length ≤ 255 →
      Takes (argumentsFrom (rules d) bound count) l ts (Follows .comma)
      (Expr.withoutIdsAll · = args)
  | .arguments, ts, args =>
    ∀ d l, ts.length < d →
      Takes (arguments (rules d)) l ts (Faces (·.isSymbol .rightParen))
      (Expr.withoutIdsAll · = args)
  | .optional, ts, found =>
    ∀ d l symbol, ts.length ≤ d → symbol = .semicolon ∨ symbol = .rightParen →
      Takes (expressionUnless (rules d) symbol) l ts (Faces (·.isSymbol symbol))
      (Expr.withoutIds? · = found)
  | .block l, ts, statements =>
    ∃ opening us, ts = opening :: us ∧ opening.isSymbol .leftBrace = true ∧
      ∀ d, us.length ≤ d → Takes (block (rules d)) l us Anything (Stmt.withoutIdsAll · = statements)
  | .function name, ts, decl =>
    ∃ opening us, ts = opening :: us ∧ opening.isSymbol .leftParen = true ∧
      ∀ d l position, us.length ≤ d →
        Takes (functionRest (rules d) name position) l us Anything (·.withoutIds = decl)
  | .method, ts, decl =>
    ∀ d l, ts.length ≤ d → Takes (method (rules d)) l ts Anything (·.withoutIds = decl)
  | .members, ts, body => ∀ d l bound read, ts.length ≤ d → ts.length ≤ bound →
      Takes (membersFrom (rules d) bound read) l ts (Faces (·.isSymbol .rightBrace))
      (·.withoutIds = joinBodies read.withoutIds body)
  | .classBody, ts, body => ∀ d l before after, ts.length ≤ d →
      Takes (classBody (rules d) before after) l ts Anything (·.withoutIds = body)
  | .varDecl, ts, stmt => ∃ word us, ts = word :: us ∧ word.isKeyword .varWord = true ∧
      ∀ d l, us.length ≤ d →
        Takes (variableDeclaration (rules d)) l us Anything (·.withoutIds = stmt)
  | .forInitial, ts, found =>
    ∀ d l, ts.length ≤ d → Takes (forInitial (rules d)) l ts Anything (Stmt.withoutIds? · = found)
  | .statement l, ts, stmt =>
    ∀ d, ts.length ≤ d → Takes (statement (rules d)) l ts (Complete stmt) (·.withoutIds = stmt)
  | .declaration l, ts, stmt =>
    ∀ d, ts.length ≤ d →
      Takes (declarationRule (rules d)) l ts (Complete stmt) (·.withoutIds = stmt)
  | .declarations l, ts, statements => ∀ d bound, ts.length < d → ts.length ≤ bound →
      Takes (statementsFrom (rules d) bound) l ts (Faces (·.isSymbol .rightBrace))
      (Stmt.withoutIdsAll · = statements) ∧
      Takes (declarationsFrom (rules d) bound) l ts (· = none) (Stmt.withoutIdsAll · = statements)

/-! ### Expressions -/

section Expressions

variable {level : Level} {left right e value : Expr} {token : Token} {ts us vs : List Token}

theorem recognized_level (hleft : Recognized (.expr level.operand) ts left)
    (hrest : Recognized (.operators level left) us e) (hfirst : Heads (.operators level left) us) :
    Recognized (.expr level.rank) (ts ++ us) e := by
  intro d l hlength
  rw [List.length_append] at hlength
  rw [rule_rank]
  apply (hleft d l (by omega)).bind
  · intro read hread
    exact takes_remaining fun bound hbound => hrest d l bound read (by omega) hbound hread
  · intro next hnext
    exact follows_operand hfirst hnext

theorem recognized_noOperator : Recognized (.operators level left) [] left := by
  intro d l bound read _ _ hread
  cases bound with
  | zero => exact takes_pure hread
  | succ bound =>
      apply takes_accept_none.look
      · exact takes_pure hread
      · intro next hnext token htoken
        rw [← Bool.not_eq_true]
        intro hoperator
        have hlt := hnext token htoken
        rw [continues_operator hoperator] at hlt
        omega

theorem recognized_operator (htoken : level.isOperator token.kind = true)
    (hright : Recognized (.expr level.operand) ts right)
    (hrest : Recognized (.operators level (level.node left token right)) us e)
    (hfirst : Heads (.operators level (level.node left token right)) us) :
    Recognized (.operators level left) (token :: (ts ++ us)) e := by
  intro d l bound read hdepth hbound hread
  simp only [List.length_cons, List.length_append] at hdepth hbound
  cases bound with
  | zero => omega
  | succ bound =>
      apply Takes.token (takes_accept htoken)
      apply (hright d l (by omega)).bind
      · intro operand hoperand
        exact hrest d l bound _ (by omega) (by omega) (by rw [withoutIds_node, hread, hoperand])
      · intro next hnext
        exact follows_operand hfirst hnext

theorem recognized_noAssignment (h : Recognized (.expr .conditional) ts e) :
    Recognized (.expr .assignment) ts e := by
  intro d l hlength
  apply (h d l hlength).last
  · intro read hread
    apply takes_accept_none.look
    · exact takes_pure hread
    · intro next hnext
      exact lacks_symbol hnext (by decide)
  · intro next hnext
    exact hnext.mono (by decide)

/-- What has the tree of a variable or a property can be assigned to. -/
theorem recognized_assign {equals : Token} {target : Expr}
    (htarget : Recognized (.expr .conditional) ts target) (hequals : equals.isSymbol .equal = true)
    (hvalue : Recognized (.expr .assignment) us value)
    (hassign : ∀ read given, Expr.withoutIds read = target → Expr.withoutIds given = value →
      ∃ found, assignTo read given = some found ∧ found.withoutIds = e) :
    Recognized (.expr .assignment) (ts ++ equals :: us) e := by
  intro d l hlength
  rw [List.length_append, List.length_cons] at hlength
  apply (htarget d l (by omega)).bind
  · intro read hread
    apply Takes.token (takes_accept hequals)
    cases d with
    | zero => omega
    | succ d =>
        apply (hvalue d l (by omega)).last
        · intro given hgiven
          obtain ⟨made, hmade, htree⟩ := hassign read given hread hgiven
          simp only [hmade]
          exact takes_pure htree
        · exact fun next hnext => hnext
  · intro next _
    exact follows_symbol hequals (by decide)

theorem recognized_assignVariable {name equals : Token}
    (htarget : Recognized (.expr .conditional) ts (.variable 0 name))
    (hequals : equals.isSymbol .equal = true) (hvalue : Recognized (.expr .assignment) us value) :
    Recognized (.expr .assignment) (ts ++ equals :: us) (.assign 0 name value) := by
  apply recognized_assign htarget hequals hvalue
  intro read given hread hgiven
  cases read <;> simp only [Expr.withoutIds, reduceCtorEq, Expr.variable.injEq] at hread
  exact ⟨_, rfl, by simp [hread.2, hgiven]⟩

theorem recognized_assignProperty {name equals : Token} {object : Expr}
    (htarget : Recognized (.expr .conditional) ts (.get object name))
    (hequals : equals.isSymbol .equal = true) (hvalue : Recognized (.expr .assignment) us value) :
    Recognized (.expr .assignment) (ts ++ equals :: us) (.set object name value) := by
  apply recognized_assign htarget hequals hvalue
  intro read given hread hgiven
  cases read <;> simp only [Expr.withoutIds, reduceCtorEq, Expr.get.injEq] at hread
  exact ⟨_, rfl, by simp [hread.1, hread.2, hgiven]⟩

theorem recognized_noConditional (h : Recognized (.expr .logicalOr) ts e) :
    Recognized (.expr .conditional) ts e := by
  intro d l hlength
  apply (h d l hlength).last
  · intro read hread
    apply (takes_acceptSymbol_not _).look
    · exact takes_pure hread
    · intro next hnext
      exact lacks_symbol hnext (by decide)
  · intro next hnext
    exact hnext.mono (by decide)

theorem recognized_conditional {question colon : Token} {condition thenBranch elseBranch : Expr}
    (hcondition : Recognized (.expr .logicalOr) ts condition)
    (hquestion : question.isSymbol .question = true)
    (hthen : Recognized (.expr .comma) us thenBranch) (hcolon : colon.isSymbol .colon = true)
    (helse : Recognized (.expr .conditional) vs elseBranch) :
    Recognized (.expr .conditional) (ts ++ question :: (us ++ colon :: vs))
      (.conditional condition thenBranch elseBranch) := by
  intro d l hlength
  simp only [List.length_append, List.length_cons] at hlength
  apply (hcondition d l (by omega)).bind
  · intro first hfirst
    apply Takes.token (takes_acceptSymbol hquestion)
    cases d with
    | zero => omega
    | succ d =>
        apply (hthen d l (by omega)).bind
        · intro second hsecond
          apply Takes.token (takes_expectSymbol _ hcolon)
          apply (helse d l (by omega)).last
          · intro third hthird
            exact takes_pure (by simp [hfirst, hsecond, hthird])
          · exact fun next hnext => hnext
        · intro next _
          exact follows_symbol hcolon (by decide)
  · intro next _
    exact follows_symbol hquestion (by decide)

theorem recognized_noUnary (h : Recognized (.expr .call) ts e) (hfirst : Heads (.expr .call) ts) :
    Recognized (.expr .unary) ts e := by
  intro d l hlength
  apply takes_accept_none.look
  · exact (h d l hlength).mono (fun next hnext => hnext.mono (by decide)) fun _ hread => hread
  · intro next _
    apply lacks_of_opens hfirst
    intro token htoken
    simp only [isAnySymbol, List.any_cons, List.any_nil, Bool.or_false, Bool.or_eq_true,
      Token.isSymbol_iff] at htoken
    rcases htoken with hkind | hkind <;> rw [hkind] <;> rfl

theorem recognized_unary (htoken : token.isSymbol .bang = true ∨ token.isSymbol .minus = true)
    (hright : Recognized (.expr .unary) ts right) :
    Recognized (.expr .unary) (token :: ts) (.unary token right) := by
  intro d l hlength
  rw [List.length_cons] at hlength
  have hoperator : isAnySymbol [.bang, .minus] token = true := by simpa [isAnySymbol] using htoken
  apply Takes.token (takes_accept hoperator)
  cases d with
  | zero => omega
  | succ d =>
      apply (hright d l (by omega)).last
      · intro operand hoperand
        exact takes_pure (by simp [hoperand])
      · exact fun next hnext => hnext

theorem recognized_call (h : Recognized (.expr .primary) ts left)
    (hrest : Recognized (.accesses left) us e) :
    Recognized (.expr .call) (ts ++ us) e := by
  intro d l hlength
  rw [List.length_append] at hlength
  apply (h d l (by omega)).bind
  · intro read hread
    exact takes_remaining fun bound hbound => hrest d l bound read (by omega) hbound hread
  · exact fun next _ => follows_primary _

theorem recognized_noAccess : Recognized (.accesses left) [] left := by
  intro d l bound read _ _ hread
  cases bound with
  | zero => exact takes_pure hread
  | succ bound =>
      apply (takes_acceptSymbol_not _).look
      · apply (takes_acceptSymbol_not _).look
        · exact takes_pure hread
        · exact fun next hnext => lacks_symbol hnext (by decide)
      · exact fun next hnext => lacks_symbol hnext (by decide)

theorem recognized_callAccess {opening closing : Token} {args : List Expr}
    (hopening : opening.isSymbol .leftParen = true) (hargs : Recognized .arguments ts args)
    (hclosing : closing.isSymbol .rightParen = true)
    (hrest : Recognized (.accesses (.call left closing args)) us e) :
    Recognized (.accesses left) (opening :: (ts ++ closing :: us)) e := by
  intro d l bound read hdepth hbound hread
  simp only [List.length_cons, List.length_append] at hdepth hbound
  cases bound with
  | zero => omega
  | succ bound =>
      have hcall : Takes (callRest (rules d) read) l (ts ++ [closing]) Anything
          (·.withoutIds = .call left closing args) := by
        apply (hargs d l (by omega)).bind
        · intro found hfound
          apply Takes.token (takes_expectSymbol _ hclosing)
          exact takes_pure (by simp [hread, hfound])
        · exact fun next _ => ⟨closing, rfl, hclosing⟩
      apply Takes.token (takes_acceptSymbol hopening)
      rw [List.append_cons]
      apply hcall.bind
      · exact fun called hcalled => hrest d l bound called (by omega) (by omega) hcalled
      · exact fun _ _ => trivial

theorem recognized_property {dot name : Token} (hdot : dot.isSymbol .dot = true)
    (hname : name.isIdentifier = true) (hrest : Recognized (.accesses (.get left name)) us e) :
    Recognized (.accesses left) (dot :: name :: us) e := by
  intro d l bound read hdepth hbound hread
  simp only [List.length_cons] at hdepth hbound
  cases bound with
  | zero => omega
  | succ bound =>
      have hnotCall : dot.isSymbol .leftParen = false := by
        simp [Token.isSymbol, Token.isSymbol_iff.1 hdot]
      apply (takes_acceptSymbol_not _).look
      · apply Takes.token (takes_acceptSymbol hdot)
        apply Takes.token (takes_expectName _ hname)
        exact hrest d l bound _ (by omega) (by omega) (by simp [hread])
      · exact fun next _ => lacks_some hnotCall

theorem recognized_noArguments : Recognized .arguments [] [] := by
  intro d l _
  apply takes_check.look
  · exact takes_pure rfl
  · exact fun next hnext => hnext

theorem recognized_someArguments {args : List Expr} (h : Recognized .argumentList ts args)
    (hfirst : Heads .argumentList ts) (hlength : args.length ≤ 255) :
    Recognized .arguments ts args := by
  intro d l hdepth
  apply takes_check_not.look
  · refine takes_remaining fun bound hbound =>
      (h d l bound 0 hdepth hbound (by omega)).mono (fun next hnext => ?_) fun _ hread => hread
    exact follows_of_faces hnext (by decide)
  · exact fun next _ => lacks_symbol_of_opens hfirst rfl next

theorem recognized_lastArgument (h : Recognized (.expr .assignment) ts e) :
    Recognized .argumentList ts [e] := by
  intro d l bound count hdepth _ hcount
  rw [List.length_singleton] at hcount
  cases d with
  | zero => omega
  | succ d =>
      cases bound with
      | zero =>
          apply Takes.idle (takes_checkCount _ (by omega))
          intro _ _
          apply (h d l (by omega)).last
          · intro read hread
            exact takes_pure (by simp [hread])
          · exact fun next hnext => hnext.mono (by decide)
      | succ bound =>
          apply Takes.idle (takes_checkCount _ (by omega))
          intro _ _
          apply (h d l (by omega)).last
          · intro read hread
            apply (takes_acceptSymbol_not _).look
            · exact takes_pure (by simp [hread])
            · exact fun next hnext => lacks_symbol hnext (by decide)
          · exact fun next hnext => hnext.mono (by decide)

theorem recognized_moreArguments {comma : Token} {args : List Expr}
    (h : Recognized (.expr .assignment) ts e) (hcomma : comma.isSymbol .comma = true)
    (hrest : Recognized .argumentList us args) :
    Recognized .argumentList (ts ++ comma :: us) (e :: args) := by
  intro d l bound count hdepth hbound hcount
  simp only [List.length_append, List.length_cons] at hdepth hbound hcount
  cases d with
  | zero => omega
  | succ d =>
      cases bound with
      | zero => omega
      | succ bound =>
          apply Takes.idle (takes_checkCount _ (by omega))
          intro _ _
          apply (h d l (by omega)).bind
          · intro read hread
            apply Takes.token (takes_acceptSymbol hcomma)
            apply (hrest (d + 1) l bound (count + 1) (by omega) (by omega) (by omega)).last
            · intro others hothers
              exact takes_pure (by simp [hread, hothers])
            · exact fun next hnext => hnext
          · exact fun next _ => follows_symbol hcomma (by decide)

theorem recognized_atom (h : Atom token e) : Recognized (.expr .primary) [token] e := by
  intro d l _
  cases h with
  | number hkind | string hkind =>
      apply takes_dispatch (by rw [primaryFrom, hkind])
      exact takes_pure rfl
  | trueWord hkind | falseWord hkind | nilWord hkind =>
      apply takes_dispatch (by rw [primaryFrom, Token.isKeyword_iff.1 hkind]; rfl)
      exact takes_pure rfl
  | thisWord hkind =>
      apply takes_dispatch (by rw [primaryFrom, Token.isKeyword_iff.1 hkind]; rfl)
      exact takes_freshId.idle fun id _ => takes_pure rfl
  | identifier hkind =>
      apply takes_dispatch (by rw [primaryFrom, Token.isIdentifier_iff.1 hkind])
      exact takes_freshId.idle fun id _ => takes_pure rfl

theorem recognized_group {opening closing : Token} (hopening : opening.isSymbol .leftParen = true)
    (h : Recognized (.expr .comma) ts e) (hclosing : closing.isSymbol .rightParen = true) :
    Recognized (.expr .primary) (opening :: (ts ++ [closing])) (.group e) := by
  intro d l hlength
  simp only [List.length_cons, List.length_append] at hlength
  apply takes_dispatch (by rw [primaryFrom, Token.isSymbol_iff.1 hopening])
  cases d with
  | zero => omega
  | succ d =>
      apply (h d l (by omega)).bind
      · intro inner hinner
        apply Takes.token (takes_expectSymbol _ hclosing)
        exact takes_pure (by simp [hinner])
      · exact fun next _ => follows_symbol hclosing (by decide)

theorem recognized_superMethod {word dot name : Token} (hword : word.isKeyword .superWord = true)
    (hdot : dot.isSymbol .dot = true) (hname : name.isIdentifier = true) :
    Recognized (.expr .primary) [word, dot, name] (.super 0 word name) := by
  intro d l _
  apply takes_dispatch (by rw [primaryFrom, Token.isKeyword_iff.1 hword]; rfl)
  apply Takes.token (takes_expectSymbol _ hdot)
  apply Takes.token (takes_expectName _ hname)
  exact takes_freshId.idle fun id _ => takes_pure rfl

theorem recognized_functionExpr {word : Token} {decl : FunctionDecl}
    (hword : word.isKeyword .funWord = true) (h : Recognized (.function none) ts decl) :
    Recognized (.expr .primary) (word :: ts) (.function decl) := by
  intro d l hlength
  obtain ⟨opening, us, rfl, hopening, hfunction⟩ := h
  simp only [List.length_cons] at hlength
  apply takes_dispatch (by rw [primaryFrom, Token.isKeyword_iff.1 hword]; rfl)
  apply Takes.token (takes_expectSymbol _ hopening)
  apply (hfunction d l _ (by omega)).last
  · intro found hfound
    exact takes_pure (by simp [hfound])
  · exact fun _ _ => trivial

theorem recognized_noExpression : Recognized .optional [] none := by
  intro d l symbol _ _
  apply takes_check.look
  · exact takes_pure rfl
  · exact fun next hnext => hnext

theorem recognized_someExpression (h : Recognized (.expr .comma) ts e)
    (hfirst : Heads (.expr .comma) ts) :
    Recognized .optional ts (some e) := by
  intro d l symbol hlength hsymbol
  apply takes_check_not.look
  · apply (h d l hlength).last
    · intro read hread
      exact takes_pure (by simp [hread])
    · intro next hnext
      apply follows_of_faces hnext
      rcases hsymbol with rfl | rfl <;> decide
  · intro next _
    apply lacks_symbol_of_opens hfirst
    rcases hsymbol with rfl | rfl <;> rfl

end Expressions

/-! ### Functions and blocks -/

section Functions

variable {l : Bool} {ts us : List Token} {body : List Stmt}

theorem takes_parametersFrom {names : List Token} (h : Names ts names) (bound count : Nat)
    (hbound : ts.length ≤ bound) (hcount : count + names.length ≤ 255) :
    Takes (parametersFrom bound count) l ts (Lacks (·.isSymbol .comma)) (· = names) := by
  induction h generalizing bound count with
  | one hname =>
      rw [List.length_singleton] at hbound hcount
      cases bound with
      | zero => omega
      | succ bound =>
          apply Takes.idle (takes_checkCount _ (by omega))
          intro _ _
          apply Takes.token (takes_expectName _ hname)
          apply (takes_acceptSymbol_not _).look
          · exact takes_pure rfl
          · exact fun next hnext => hnext
  | more hname hcomma _ ih =>
      simp only [List.length_cons] at hbound hcount
      cases bound with
      | zero => omega
      | succ bound =>
          apply Takes.idle (takes_checkCount _ (by omega))
          intro _ _
          apply Takes.token (takes_expectName _ hname)
          apply Takes.token (takes_acceptSymbol hcomma)
          apply (ih bound (count + 1) (by omega) (by omega)).last
          · intro others hothers
            exact takes_pure (by rw [hothers])
          · exact fun next hnext => hnext

theorem startsWith_of_names {names : List Token} (h : Names ts names) :
    StartsWith .identifier ts := by
  cases h with
  | one hname | more hname _ _ => exact ⟨_, _, rfl, Token.isIdentifier_iff.1 hname⟩

theorem takes_parameters {params : List Token} (h : Parameters ts params) :
    Takes parameters l ts (Faces (·.isSymbol .rightParen)) (· = params) := by
  cases h with
  | none =>
      apply takes_check.look
      · exact takes_pure rfl
      · exact fun next hnext => hnext
  | some hnames hlength =>
      obtain ⟨name, rest, hts, hname⟩ := startsWith_of_names hnames
      apply takes_check_not.look
      · refine takes_remaining fun bound hbound =>
          (takes_parametersFrom hnames bound 0 hbound (by omega)).mono ?_ fun _ hread => hread
        rintro next ⟨token, rfl, htoken⟩
        exact lacks_some (by simp [Token.isSymbol, Token.isSymbol_iff.1 htoken])
      · intro next _
        rw [hts]
        exact lacks_some (by simp [Token.isSymbol, hname])

theorem recognized_block {opening closing : Token} (hopening : opening.isSymbol .leftBrace = true)
    (h : Recognized (.declarations l) ts body) (hclosing : closing.isSymbol .rightBrace = true) :
    Recognized (.block l) (opening :: (ts ++ [closing])) body := by
  refine ⟨opening, ts ++ [closing], rfl, hopening, fun d hlength => takes_remaining
    fun bound hbound => ?_⟩
  rw [List.length_append, List.length_singleton] at hlength hbound
  apply (h d bound (by omega) (by omega)).1.bind
  · intro statements hstatements
    apply Takes.token (takes_expectSymbol _ hclosing)
    exact takes_pure hstatements
  · exact fun next _ => ⟨closing, rfl, hclosing⟩

theorem recognized_function {name : Option Token} {opening closing : Token} {params : List Token}
    (hopening : opening.isSymbol .leftParen = true) (hparams : Parameters ts params)
    (hclosing : closing.isSymbol .rightParen = true) (hbody : Recognized (.block false) us body) :
    Recognized (.function name) (opening :: (ts ++ closing :: us)) ⟨name, params, body, false⟩ := by
  obtain ⟨brace, vs, rfl, hbrace, hblock⟩ := hbody
  refine ⟨opening, ts ++ closing :: brace :: vs, rfl, hopening, fun d l position hlength => ?_⟩
  simp only [List.length_append, List.length_cons] at hlength
  apply (takes_parameters hparams).bind
  · intro found hfound
    subst hfound
    apply Takes.token (takes_expectSymbol _ hclosing)
    apply Takes.token (takes_expectSymbol _ hbrace)
    apply (takes_inFunction (hblock d (by omega))).last
    · intro statements hstatements
      exact takes_pure (by simp [hstatements])
    · exact fun _ _ => trivial
  · exact fun next _ => ⟨closing, rfl, hclosing⟩

end Functions

/-! ### Classes and traits -/

/-- A loop that ends at a closing brace goes on before any other token. -/
theorem takes_unlessClosed {α : Type} {stop x : Parser α} {l : Bool} {token : Token}
    {us : List Token} {E : Option Token → Prop} {Q : α → Prop}
    (htoken : token.isSymbol .rightBrace = false) (h : Takes x l (token :: us) E Q) :
    Takes (do if (← checkSymbol .rightBrace) || (← atEnd) then stop else x) l
      (token :: us) E Q := by
  apply takes_check_not.look
  · apply takes_atEnd_not.look
    · exact h
    · exact fun next _ => ⟨token, rfl, rfl⟩
  · exact fun next _ => lacks_some htoken

theorem takes_closed {α : Type} {x : Parser α} {a : α} {l : Bool} {Q : α → Prop} (h : Q a) :
    Takes (do if (← checkSymbol .rightBrace) || (← atEnd) then return a else x) l []
      (Faces (·.isSymbol .rightBrace)) Q := by
  apply takes_check.look
  · apply takes_atEnd_not.look
    · exact takes_pure h
    · rintro next ⟨token, htoken, _⟩
      exact ⟨token, htoken, rfl⟩
  · exact fun next hnext => hnext

section Classes

variable {name : Token} {ts us : List Token} {decl : FunctionDecl} {traits : List Expr}
  {methods classMethods : List FunctionDecl}

theorem recognized_getter {body : List Stmt} (hname : name.isIdentifier = true)
    (hbody : Recognized (.block false) ts body) :
    Recognized .method (name :: ts) ⟨some name, [], body, true⟩ := by
  intro d l hlength
  obtain ⟨opening, us, rfl, hopening, hblock⟩ := hbody
  simp only [List.length_cons] at hlength
  apply Takes.token (takes_expectName _ hname)
  apply Takes.token (takes_acceptSymbol hopening)
  apply (takes_inFunction (hblock d (by omega))).last
  · intro statements hstatements
    exact takes_pure (by simp [hstatements])
  · exact fun _ _ => trivial

theorem recognized_method (hname : name.isIdentifier = true)
    (h : Recognized (.function (some name)) ts decl) :
    Recognized .method (name :: ts) decl := by
  intro d l hlength
  obtain ⟨opening, us, rfl, hopening, hfunction⟩ := h
  simp only [List.length_cons] at hlength
  apply Takes.token (takes_expectName _ hname)
  apply (takes_acceptSymbol_not _).look
  · apply Takes.token (takes_expectSymbol _ hopening)
    exact hfunction d l _ (by omega)
  · exact fun next _ => lacks_some (by simp [Token.isSymbol, Token.isSymbol_iff.1 hopening])

theorem takes_usedTraitsFrom {l : Bool} {names : List Token} (h : Names ts names) (bound : Nat)
    (hbound : ts.length ≤ bound) :
    Takes (usedTraitsFrom bound) l ts (Lacks (·.isSymbol .comma))
      (Expr.withoutIdsAll · = names.map (.variable 0)) := by
  induction h generalizing bound with
  | one hname =>
      rw [List.length_singleton] at hbound
      cases bound with
      | zero => omega
      | succ bound =>
          apply Takes.token (takes_expectName _ hname)
          apply takes_freshId.idle
          intro id _
          apply (takes_acceptSymbol_not _).look
          · exact takes_pure rfl
          · exact fun next hnext => hnext
  | more hname hcomma _ ih =>
      simp only [List.length_cons] at hbound
      cases bound with
      | zero => omega
      | succ bound =>
          apply Takes.token (takes_expectName _ hname)
          apply takes_freshId.idle
          intro id _
          apply Takes.token (takes_acceptSymbol hcomma)
          apply (ih bound (by omega)).last
          · intro others hothers
            exact takes_pure (by simp [hothers])
          · exact fun next hnext => hnext

theorem recognized_noMember : Recognized .members [] ⟨[], [], []⟩ := by
  intro d l bound read _ _
  cases bound with
  | zero => exact takes_pure (joinBodies_none read).symm
  | succ bound => exact takes_closed (joinBodies_none read).symm

theorem recognized_useMember {word semicolon : Token} {names : List Token}
    (hword : word.isKeyword .useWord = true) (hnames : Names ts names)
    (hsemicolon : semicolon.isSymbol .semicolon = true)
    (hrest : Recognized .members us ⟨traits, methods, classMethods⟩) :
    Recognized .members (word :: (ts ++ semicolon :: us))
      ⟨names.map (.variable 0) ++ traits, methods, classMethods⟩ := by
  rintro d l bound ⟨readTraits, readMethods, readClassMethods⟩ hdepth hbound
  simp only [List.length_cons, List.length_append] at hdepth hbound
  cases bound with
  | zero => omega
  | succ bound =>
      apply takes_unlessClosed (by simp [Token.isSymbol, Token.isKeyword_iff.1 hword])
      apply Takes.token (takes_acceptKeyword hword)
      refine takes_remaining fun left hleft => ?_
      rw [List.length_append] at hleft
      apply (takes_usedTraitsFrom hnames left (by omega)).bind
      · intro used hused
        apply Takes.token (takes_expectSymbol _ hsemicolon)
        apply (hrest d l bound _ (by omega) (by omega)).mono (fun next hnext => hnext)
        intro body hbody
        rw [hbody]
        simp [joinBodies, ClassBody.withoutIds, hused]
      · exact fun next _ => lacks_some (by simp [Token.isSymbol, Token.isSymbol_iff.1 hsemicolon])

theorem recognized_classMember {word : Token} (hword : word.isKeyword .classWord = true)
    (h : Recognized .method ts decl)
    (hrest : Recognized .members us ⟨traits, methods, classMethods⟩) :
    Recognized .members (word :: (ts ++ us)) ⟨traits, methods, decl :: classMethods⟩ := by
  rintro d l bound ⟨readTraits, readMethods, readClassMethods⟩ hdepth hbound
  simp only [List.length_cons, List.length_append] at hdepth hbound
  have hkind := Token.isKeyword_iff.1 hword
  cases bound with
  | zero => omega
  | succ bound =>
      apply takes_unlessClosed (by simp [Token.isSymbol, hkind])
      apply (takes_acceptKeyword_not _).look
      · apply Takes.token (takes_acceptKeyword hword)
        apply (h d l (by omega)).bind
        · intro found hfound
          apply (hrest d l bound _ (by omega) (by omega)).mono (fun next hnext => hnext)
          intro body hbody
          rw [hbody]
          simp [joinBodies, ClassBody.withoutIds, hfound]
        · exact fun _ _ => trivial
      · exact fun next _ => lacks_some (by simp [Token.isKeyword, hkind])

theorem recognized_instanceMember (h : Recognized .method ts decl) (hfirst : Heads .method ts)
    (hrest : Recognized .members us ⟨traits, methods, classMethods⟩) :
    Recognized .members (ts ++ us) ⟨traits, decl :: methods, classMethods⟩ := by
  rintro d l bound ⟨readTraits, readMethods, readClassMethods⟩ hdepth hbound
  obtain ⟨name, vs, rfl, hname⟩ := hfirst
  simp only [List.length_cons, List.length_append] at hdepth hbound
  cases bound with
  | zero => omega
  | succ bound =>
      apply takes_unlessClosed (by simp [Token.isSymbol, hname])
      apply (takes_acceptKeyword_not _).look
      · apply (takes_acceptKeyword_not _).look
        · apply (h d l (by simp; omega)).bind
          · intro found hfound
            apply (hrest d l bound _ (by omega) (by omega)).mono (fun next hnext => hnext)
            intro body hbody
            rw [hbody]
            simp [joinBodies, hfound]
          · exact fun _ _ => trivial
        · exact fun next _ => lacks_some (by simp [Token.isKeyword, hname])
      · exact fun next _ => lacks_some (by simp [Token.isKeyword, hname])

theorem recognized_classBody {opening closing : Token} {body : ClassBody}
    (hopening : opening.isSymbol .leftBrace = true) (h : Recognized .members ts body)
    (hclosing : closing.isSymbol .rightBrace = true) :
    Recognized .classBody (opening :: (ts ++ [closing])) body := by
  intro d l before after hlength
  obtain ⟨traits, methods, classMethods⟩ := body
  simp only [List.length_cons, List.length_append] at hlength
  apply Takes.token (takes_expectSymbol _ hopening)
  refine takes_remaining fun bound hbound => ?_
  rw [List.length_append] at hbound
  apply (h d l bound _ (by omega) (by omega)).bind
  · intro found hfound
    apply Takes.token (takes_expectSymbol _ hclosing)
    exact takes_pure (by simp [hfound, joinBodies])
  · exact fun next _ => ⟨closing, rfl, hclosing⟩

theorem takes_superclass {l : Bool} {parent : Option Expr} (h : Superclass ts parent) :
    Takes superclass l ts (Lacks (·.isSymbol .less)) (Expr.withoutIds? · = parent) := by
  cases h with
  | none =>
      apply (takes_acceptSymbol_not _).look
      · exact takes_pure rfl
      · exact fun next hnext => hnext
  | some hless hname =>
      apply Takes.token (takes_acceptSymbol hless)
      apply Takes.token (takes_expectName _ hname)
      exact takes_freshId.idle fun id _ => takes_pure rfl

end Classes

/-! ### Statements -/

section Statements

variable {l : Bool} {word opening closing semicolon : Token} {ts us vs ws : List Token}
  {e condition : Expr} {stmt : Stmt}

theorem takes_expressionStatement (h : Recognized (.expr .comma) ts e)
    (hsemicolon : semicolon.isSymbol .semicolon = true) {d : Nat} (hlength : ts.length ≤ d) :
    Takes (expressionStatement (rules d)) l (ts ++ [semicolon]) Anything
      (·.withoutIds = .expression e) := by
  apply (h d l hlength).bind
  · intro read hread
    apply Takes.token (takes_expectSymbol _ hsemicolon)
    exact takes_pure (by simp [hread])
  · exact fun next _ => follows_symbol hsemicolon (by decide)

theorem recognized_exprStmt (h : Recognized (.expr .comma) ts e) (hfirst : Heads (.expr .comma) ts)
    (hsemicolon : semicolon.isSymbol .semicolon = true) :
    Recognized (.statement l) (ts ++ [semicolon]) (.expression e) := by
  intro d hlength
  rw [List.length_append] at hlength
  have hread := takes_expressionStatement h hsemicolon (l := l) (d := d) (by omega)
  cases ts with
  | nil => exact hfirst.elim
  | cons token ts =>
      apply takes_dispatch_none
      · have hstarts := hfirst.1
        unfold statementFrom
        split
        all_goals first | rfl | simp [startsExpression, startsPrimary, *] at hstarts
      · exact hread.mono (fun _ _ => trivial) fun _ htree => htree

theorem recognized_printStmt (hword : word.isKeyword .printWord = true)
    (h : Recognized (.expr .comma) ts e) (hsemicolon : semicolon.isSymbol .semicolon = true) :
    Recognized (.statement l) (word :: (ts ++ [semicolon])) (.print e) := by
  intro d hlength
  simp only [List.length_cons, List.length_append] at hlength
  apply takes_dispatch (by rw [statementFrom, Token.isKeyword_iff.1 hword])
  apply (h d l (by omega)).bind
  · intro read hread
    apply Takes.token (takes_expectSymbol _ hsemicolon)
    exact takes_pure (by simp [hread])
  · exact fun next _ => follows_symbol hsemicolon (by decide)

/-- An `if` whose other branch, if there is one, is read by its rule. -/
theorem takes_ifStatement {thenBranch : Stmt} {otherBranch : Option Stmt} {E : Option Token → Prop}
    {d : Nat} (hopening : opening.isSymbol .leftParen = true)
    (hcondition : Recognized (.expr .comma) ts condition)
    (hclosing : closing.isSymbol .rightParen = true)
    (hthen : Recognized (.statement l) us thenBranch)
    (hother : Takes (elseBranch (rules (d + 1))) l vs E (Stmt.withoutIds? · = otherBranch))
    (hends : ∀ next, E next → Complete thenBranch (vs.head?.or next))
    (hlength : ts.length ≤ d ∧ us.length ≤ d) :
    Takes (ifStatement (rules (d + 1))) l (opening :: (ts ++ closing :: (us ++ vs))) E
      (·.withoutIds = .ifElse condition thenBranch otherBranch) := by
  apply Takes.token (takes_expectSymbol _ hopening)
  apply (hcondition (d + 1) l (by omega)).bind
  · intro first hfirst
    apply Takes.token (takes_expectSymbol _ hclosing)
    apply (hthen d hlength.2).bind
    · intro second hsecond
      apply hother.last
      · intro third hthird
        exact takes_pure (by simp [hfirst, hsecond, hthird])
      · exact fun next hnext => hnext
    · exact hends
  · exact fun next _ => follows_symbol hclosing (by decide)

theorem recognized_ifStmt {thenBranch : Stmt} (hword : word.isKeyword .ifWord = true)
    (hopening : opening.isSymbol .leftParen = true)
    (hcondition : Recognized (.expr .comma) ts condition)
    (hclosing : closing.isSymbol .rightParen = true)
    (hthen : Recognized (.statement l) us thenBranch) :
    Recognized (.statement l) (word :: opening :: (ts ++ closing :: us))
      (.ifElse condition thenBranch none) := by
  intro d hlength
  simp only [List.length_cons, List.length_append] at hlength
  apply takes_dispatch (by rw [statementFrom, Token.isKeyword_iff.1 hword])
  cases d with
  | zero => omega
  | succ d =>
      have hnone : Takes (elseBranch (rules (d + 1))) l [] (Lacks (·.isKeyword .elseWord))
          (Stmt.withoutIds? · = none) := by
        apply (takes_acceptKeyword_not _).look
        · exact takes_pure rfl
        · exact fun next hnext => hnext
      have hboth := takes_ifStatement hopening hcondition hclosing hthen hnone
        (fun next hnext _ => hnext) ⟨by omega, by omega⟩
      rw [List.append_nil] at hboth
      exact hboth.mono (fun next hnext => hnext rfl) fun _ htree => htree

theorem recognized_ifElseStmt {elseToken : Token} {thenBranch other : Stmt}
    (hword : word.isKeyword .ifWord = true) (hopening : opening.isSymbol .leftParen = true)
    (hcondition : Recognized (.expr .comma) ts condition)
    (hclosing : closing.isSymbol .rightParen = true)
    (hthen : Recognized (.statement l) us thenBranch) (hnearest : thenBranch.endsOpen = false)
    (helse : elseToken.isKeyword .elseWord = true) (hother : Recognized (.statement l) vs other) :
    Recognized (.statement l) (word :: opening :: (ts ++ closing :: (us ++ elseToken :: vs)))
      (.ifElse condition thenBranch (some other)) := by
  intro d hlength
  simp only [List.length_cons, List.length_append] at hlength
  apply takes_dispatch (by rw [statementFrom, Token.isKeyword_iff.1 hword])
  cases d with
  | zero => omega
  | succ d =>
      have hsome : Takes (elseBranch (rules (d + 1))) l (elseToken :: vs) (Complete other)
          (Stmt.withoutIds? · = some other) := by
        apply Takes.token (takes_acceptKeyword helse)
        apply (hother d (by omega)).last
        · intro read hread
          exact takes_pure (by simp [hread])
        · exact fun next hnext => hnext
      apply takes_ifStatement hopening hcondition hclosing hthen hsome
      · intro next _ hopen
        rw [hnearest] at hopen
        cases hopen
      · exact ⟨by omega, by omega⟩

theorem recognized_whileStmt {body : Stmt} (hword : word.isKeyword .whileWord = true)
    (hopening : opening.isSymbol .leftParen = true)
    (hcondition : Recognized (.expr .comma) ts condition)
    (hclosing : closing.isSymbol .rightParen = true)
    (hbody : Recognized (.statement true) us body) :
    Recognized (.statement l) (word :: opening :: (ts ++ closing :: us))
      (.whileLoop condition body) := by
  intro d hlength
  simp only [List.length_cons, List.length_append] at hlength
  apply takes_dispatch (by rw [statementFrom, Token.isKeyword_iff.1 hword])
  apply Takes.token (takes_expectSymbol _ hopening)
  cases d with
  | zero => omega
  | succ d =>
      apply (hcondition (d + 1) l (by omega)).bind
      · intro first hfirst
        apply Takes.token (takes_expectSymbol _ hclosing)
        apply (takes_inLoop (hbody d (by omega))).last
        · intro second hsecond
          exact takes_pure (by simp [hfirst, hsecond])
        · exact fun next hnext => hnext
      · exact fun next _ => follows_symbol hclosing (by decide)

theorem recognized_forStmt {initial : Option Stmt} {condition increment : Option Expr} {body : Stmt}
    (hword : word.isKeyword .forWord = true) (hopening : opening.isSymbol .leftParen = true)
    (hinitial : Recognized .forInitial ts initial) (hcondition : Recognized .optional us condition)
    (hsemicolon : semicolon.isSymbol .semicolon = true)
    (hincrement : Recognized .optional vs increment)
    (hclosing : closing.isSymbol .rightParen = true)
    (hbody : Recognized (.statement true) ws body) :
    Recognized (.statement l)
      (word :: opening :: (ts ++ (us ++ semicolon :: (vs ++ closing :: ws))))
      (.forLoop initial condition increment body) := by
  intro d hlength
  simp only [List.length_cons, List.length_append] at hlength
  apply takes_dispatch (by rw [statementFrom, Token.isKeyword_iff.1 hword])
  apply Takes.token (takes_expectSymbol _ hopening)
  cases d with
  | zero => omega
  | succ d =>
      apply (hinitial (d + 1) l (by omega)).bind
      · intro first hfirst
        apply (hcondition (d + 1) l .semicolon (by omega) (.inl rfl)).bind
        · intro second hsecond
          apply Takes.token (takes_expectSymbol _ hsemicolon)
          apply (hincrement (d + 1) l .rightParen (by omega) (.inr rfl)).bind
          · intro third hthird
            apply Takes.token (takes_expectSymbol _ hclosing)
            apply (takes_inLoop (hbody d (by omega))).last
            · intro fourth hfourth
              exact takes_pure (by simp [hfirst, hsecond, hthird, hfourth])
            · exact fun next hnext => hnext
          · exact fun next _ => ⟨closing, rfl, hclosing⟩
        · exact fun next _ => ⟨semicolon, rfl, hsemicolon⟩
      · exact fun _ _ => trivial

theorem recognized_noInitial (hsemicolon : semicolon.isSymbol .semicolon = true) :
    Recognized .forInitial [semicolon] none := by
  intro d l _
  apply Takes.token (takes_acceptSymbol hsemicolon)
  exact takes_pure rfl

theorem recognized_varInitial (h : Recognized .varDecl ts stmt) :
    Recognized .forInitial ts (some stmt) := by
  intro d l hlength
  obtain ⟨word, us, rfl, hword, hread⟩ := h
  rw [List.length_cons] at hlength
  apply (takes_acceptSymbol_not _).look
  · apply Takes.token (takes_acceptKeyword hword)
    apply (hread d l (by omega)).last
    · intro read hread
      exact takes_pure (by simp [hread])
    · exact fun _ _ => trivial
  · exact fun next _ => lacks_some (by simp [Token.isSymbol, Token.isKeyword_iff.1 hword])

theorem recognized_exprInitial (h : Recognized (.expr .comma) ts e)
    (hfirst : Heads (.expr .comma) ts) (hsemicolon : semicolon.isSymbol .semicolon = true) :
    Recognized .forInitial (ts ++ [semicolon]) (some (.expression e)) := by
  intro d l hlength
  rw [List.length_append] at hlength
  have hopens : Opens startsExpression (ts ++ [semicolon]) := hfirst.append _
  apply (takes_acceptSymbol_not _).look
  · apply (takes_acceptKeyword_not _).look
    · apply (takes_expressionStatement h hsemicolon (by omega)).last
      · intro read hread
        exact takes_pure (by simp [hread])
      · exact fun _ _ => trivial
    · exact fun next _ => lacks_keyword_of_opens hopens rfl next
  · exact fun next _ => lacks_symbol_of_opens hopens rfl next

theorem recognized_returnStmt {value : Option Expr} (hword : word.isKeyword .returnWord = true)
    (hvalue : Recognized .optional ts value) (hsemicolon : semicolon.isSymbol .semicolon = true) :
    Recognized (.statement l) (word :: (ts ++ [semicolon])) (.returnValue word value) := by
  intro d hlength
  simp only [List.length_cons, List.length_append] at hlength
  apply takes_dispatch (by rw [statementFrom, Token.isKeyword_iff.1 hword])
  apply (hvalue d l .semicolon (by omega) (.inl rfl)).bind
  · intro read hread
    apply Takes.token (takes_expectSymbol _ hsemicolon)
    exact takes_pure (by simp [hread])
  · exact fun next _ => ⟨semicolon, rfl, hsemicolon⟩

theorem recognized_jumpStmt {kind : Jump} (hword : word.isKeyword (jumpKeyword kind) = true)
    (hsemicolon : semicolon.isSymbol .semicolon = true) :
    Recognized (.statement true) [word, semicolon] (.jump word kind) := by
  intro d _
  have hchoose : statementFrom (rules d) word = some (jumpStatement word kind) := by
    rw [statementFrom, Token.isKeyword_iff.1 hword]
    cases kind <;> rfl
  apply takes_dispatch hchoose
  apply takes_insideLoop.idle
  intro inside hinside
  subst hinside
  apply Takes.token (takes_expectSymbol _ hsemicolon)
  exact takes_pure rfl

theorem recognized_blockStmt {statements : List Stmt} (h : Recognized (.block l) ts statements) :
    Recognized (.statement l) ts (.block statements) := by
  intro d hlength
  obtain ⟨opening, us, rfl, hopening, hread⟩ := h
  rw [List.length_cons] at hlength
  apply takes_dispatch (by rw [statementFrom, Token.isSymbol_iff.1 hopening])
  apply (hread d (by omega)).last
  · intro read hread
    exact takes_pure (by simp [hread])
  · exact fun _ _ => trivial

end Statements

/-! ### Declarations -/

section Declarations

variable {l : Bool} {word name semicolon : Token} {ts us : List Token} {stmt : Stmt}

theorem recognized_varDecl (hword : word.isKeyword .varWord = true)
    (hname : name.isIdentifier = true) (hsemicolon : semicolon.isSymbol .semicolon = true) :
    Recognized .varDecl [word, name, semicolon] (.variable name none) := by
  refine ⟨word, [name, semicolon], rfl, hword, fun d l _ => ?_⟩
  have hnone : Takes (initialValue (rules d)) l [] (Lacks (·.isSymbol .equal))
      (Expr.withoutIds? · = none) := by
    apply (takes_acceptSymbol_not _).look
    · exact takes_pure rfl
    · exact fun next hnext => hnext
  apply Takes.token (takes_expectName _ hname)
  apply hnone.bind
  · intro initial hinitial
    apply Takes.token (takes_expectSymbol _ hsemicolon)
    exact takes_pure (by simp [hinitial])
  · exact fun next _ => lacks_some (by simp [Token.isSymbol, Token.isSymbol_iff.1 hsemicolon])

theorem recognized_varDeclValue {equals : Token} {value : Expr}
    (hword : word.isKeyword .varWord = true) (hname : name.isIdentifier = true)
    (hequals : equals.isSymbol .equal = true) (hvalue : Recognized (.expr .comma) ts value)
    (hsemicolon : semicolon.isSymbol .semicolon = true) :
    Recognized .varDecl (word :: name :: equals :: (ts ++ [semicolon]))
      (.variable name (some value)) := by
  refine ⟨word, name :: equals :: (ts ++ [semicolon]), rfl, hword, fun d l hlength => ?_⟩
  simp only [List.length_cons, List.length_append] at hlength
  have hsome : Takes (initialValue (rules d)) l (equals :: ts) (Follows .comma)
      (Expr.withoutIds? · = some value) := by
    apply Takes.token (takes_acceptSymbol hequals)
    apply (hvalue d l (by omega)).last
    · intro read hread
      exact takes_pure (by simp [hread])
    · exact fun next hnext => hnext
  apply Takes.token (takes_expectName _ hname)
  apply hsome.bind
  · intro initial hinitial
    apply Takes.token (takes_expectSymbol _ hsemicolon)
    exact takes_pure (by simp [hinitial])
  · exact fun next _ => follows_symbol hsemicolon (by decide)

theorem recognized_classDecl {parent : Option Expr} {body : ClassBody}
    (hword : word.isKeyword .classWord = true) (hname : name.isIdentifier = true)
    (hparent : Superclass ts parent) (hbody : Recognized .classBody us body)
    (hfirst : Heads .classBody us) :
    Recognized (.declaration l) (word :: name :: (ts ++ us)) (.classDecl name parent body) := by
  intro d hlength
  simp only [List.length_cons, List.length_append] at hlength
  obtain ⟨opening, vs, hus, hopening⟩ := hfirst
  apply Takes.token (takes_acceptKeyword hword)
  apply Takes.token (takes_expectName _ hname)
  apply (takes_superclass hparent).bind
  · intro superclass hsuperclass
    apply (hbody d l _ _ (by omega)).last
    · intro members hmembers
      exact takes_pure (by simp [hsuperclass, hmembers])
    · exact fun _ _ => trivial
  · intro next _
    rw [hus]
    exact lacks_some (by simp [Token.isSymbol, hopening])

/-- A declaration that starts with neither `class` nor `trait`. -/
theorem takes_declarationRule {d : Nat} {E : Option Token → Prop} {Q : Stmt → Prop} {starts : Bool}
    (hclass : word.isKeyword .classWord = false) (htrait : word.isKeyword .traitWord = false)
    (hstarts : ∀ (s : State) (rest : List Token), s.rest = word :: us ++ rest →
      s.startsFunction = starts)
    (h : Takes
      (if starts = true then do
        let _ ← accept fun _ => true
        functionDeclaration (rules d)
      else do
        if ← acceptKeyword .varWord then variableDeclaration (rules d)
        else statement (rules d)) l (word :: us) E Q) :
    Takes (declarationRule (rules d)) l (word :: us) E Q := by
  apply (takes_acceptKeyword_not _).look
  · apply (takes_acceptKeyword_not _).look
    · exact takes_startsFunction hstarts h
    · exact fun next _ => lacks_some htrait
  · exact fun next _ => lacks_some hclass

theorem recognized_traitDecl {body : ClassBody} (hword : word.isKeyword .traitWord = true)
    (hname : name.isIdentifier = true) (hbody : Recognized .classBody ts body) :
    Recognized (.declaration l) (word :: name :: ts) (.traitDecl name body) := by
  intro d hlength
  simp only [List.length_cons] at hlength
  apply (takes_acceptKeyword_not _).look
  · apply Takes.token (takes_acceptKeyword hword)
    apply Takes.token (takes_expectName _ hname)
    apply (hbody d l _ _ (by omega)).last
    · intro members hmembers
      exact takes_pure (by simp [hmembers])
    · exact fun _ _ => trivial
  · exact fun next _ => lacks_some (by simp [Token.isKeyword, Token.isKeyword_iff.1 hword])

theorem recognized_funDecl {decl : FunctionDecl} (hword : word.isKeyword .funWord = true)
    (hname : name.isIdentifier = true) (h : Recognized (.function (some name)) ts decl) :
    Recognized (.declaration l) (word :: name :: ts) (.function decl) := by
  intro d hlength
  obtain ⟨opening, us, rfl, hopening, hread⟩ := h
  simp only [List.length_cons] at hlength
  have hkind := Token.isKeyword_iff.1 hword
  apply takes_declarationRule (by simp [Token.isKeyword, hkind]) (by simp [Token.isKeyword, hkind])
  · intro s rest hrest
    show s.startsFunction = true
    simp [State.startsFunction, hrest, hword, hname]
  · apply Takes.token (takes_accept rfl)
    apply Takes.token (takes_expectName _ hname)
    apply Takes.token (takes_expectSymbol _ hopening)
    apply (hread d l _ (by omega)).last
    · intro found hfound
      exact takes_pure (by simp [hfound])
    · exact fun _ _ => trivial

theorem recognized_varDeclaration (h : Recognized .varDecl ts stmt) :
    Recognized (.declaration l) ts stmt := by
  intro d hlength
  obtain ⟨word, us, rfl, hword, hread⟩ := h
  rw [List.length_cons] at hlength
  have hkind := Token.isKeyword_iff.1 hword
  apply takes_declarationRule (by simp [Token.isKeyword, hkind]) (by simp [Token.isKeyword, hkind])
  · intro s rest hrest
    show s.startsFunction = false
    cases us <;> cases rest <;> simp [State.startsFunction, hrest, Token.isKeyword, hkind]
  · apply Takes.token (takes_acceptKeyword hword)
    exact (hread d l (by omega)).mono (fun _ _ => trivial) fun _ htree => htree

/-- What opens a statement is no function declaration: a first `fun` is followed by a
parenthesis. -/
theorem startsFunction_of_opens {test : Token.Kind → Bool} {s : State} {rest : List Token}
    (h : Opens test ts) (hrest : s.rest = ts ++ rest) :
    s.startsFunction = false := by
  unfold State.startsFunction
  split
  next first second others hall =>
    rw [Bool.and_eq_false_iff]
    by_cases hfun : first.isKeyword .funWord = true
    · right
      cases ts with
      | nil => exact h.elim
      | cons token ts =>
          rw [hall, List.cons_append, List.cons.injEq] at hrest
          obtain ⟨rfl, hsecond⟩ := hrest
          obtain ⟨next, hnext, hparen⟩ := h.2 (Token.isKeyword_iff.1 hfun)
          have heq : second = next := by
            have hheads := congrArg List.head? hsecond
            rw [List.head?_append, hnext] at hheads
            exact Option.some.inj hheads
          simp [heq, Token.isIdentifier, hparen]
    · left
      exact Bool.not_eq_true _ ▸ hfun
  next => rfl

theorem recognized_statement (h : Recognized (.statement l) ts stmt)
    (hfirst : Opens Grammar.startsStatement ts) :
    Recognized (.declaration l) ts stmt := by
  intro d hlength
  cases ts with
  | nil => exact hfirst.elim
  | cons word us =>
      have hno : ∀ keyword : Keyword, Grammar.startsStatement (.keyword keyword) = false →
          word.isKeyword keyword = false := by
        intro keyword hkeyword
        exact lacks_keyword_of_opens hfirst hkeyword none word rfl
      apply takes_declarationRule (hno _ rfl) (hno _ rfl)
        (fun s rest hrest => startsFunction_of_opens hfirst hrest)
      apply (takes_acceptKeyword_not _).look
      · exact h d hlength
      · exact fun next _ => lacks_some (hno _ rfl)

theorem recognized_noDeclaration : Recognized (.declarations l) [] [] := by
  intro d bound _ _
  cases bound with
  | zero => exact ⟨takes_pure rfl, takes_pure rfl⟩
  | succ bound =>
      refine ⟨takes_closed rfl, ?_⟩
      apply takes_atEnd.look
      · exact takes_pure rfl
      · exact fun next hnext => hnext

theorem complete_of_heads {next : Option Token} (stmt : Stmt) (hfirst : Heads (.declarations l) us)
    (hnext : Lacks (·.isKeyword .elseWord) next) : Complete stmt (us.head?.or next) := by
  intro _ token htoken
  cases us with
  | nil => exact hnext token htoken
  | cons first us =>
      cases htoken
      rw [← Bool.not_eq_true, Token.isKeyword_iff]
      intro hkind
      have hheads := hfirst token rfl
      rw [hkind] at hheads
      revert hheads
      decide

/-- A declaration and then the rest of a loop that reads declarations. -/
theorem takes_declaration {d : Nat} {loop : Parser (List Stmt)} {rest : List Stmt}
    {E : Option Token → Prop} (h : Recognized (.declaration l) ts stmt) (hlength : ts.length ≤ d)
    (hloop : Takes loop l us E (Stmt.withoutIdsAll · = rest))
    (hends : ∀ next, E next → Complete stmt (us.head?.or next)) :
    Takes (do
      match ← (rules (d + 1)).declaration with
      | some stmt => return stmt :: (← loop)
      | none => loop) l (ts ++ us) E (Stmt.withoutIdsAll · = stmt :: rest) := by
  apply (takes_recovering (h d hlength)).bind
  · rintro _ ⟨read, rfl, hread⟩
    apply hloop.last
    · intro others hothers
      exact takes_pure (by simp [hread, hothers])
    · exact fun next hnext => hnext
  · exact hends

theorem recognized_moreDeclarations {rest : List Stmt} (h : Recognized (.declaration l) ts stmt)
    (hfirst : Heads (.declaration l) ts) (hrest : Recognized (.declarations l) us rest)
    (hsecond : Heads (.declarations l) us) :
    Recognized (.declarations l) (ts ++ us) (stmt :: rest) := by
  intro d bound hdepth hbound
  obtain ⟨token, vs, rfl, htoken⟩ := hfirst
  simp only [List.length_append, List.length_cons] at hdepth hbound
  cases d with
  | zero => omega
  | succ d =>
      cases bound with
      | zero => omega
      | succ bound =>
          obtain ⟨hblock, hprogram⟩ := hrest (d + 1) bound (by omega) (by omega)
          have hlength : (token :: vs).length ≤ d := by
            rw [List.length_cons]
            omega
          constructor
          · apply takes_unlessClosed
            · rw [← Bool.not_eq_true, Token.isSymbol_iff]
              intro hkind
              rw [hkind] at htoken
              revert htoken
              decide
            · apply takes_declaration h hlength hblock
              rintro next ⟨closing, rfl, hclosing⟩
              exact complete_of_heads stmt hsecond
                (lacks_some (by simp [Token.isKeyword, Token.isSymbol_iff.1 hclosing]))
          · apply takes_atEnd_not.look
            · apply takes_declaration h hlength hprogram
              rintro next rfl
              exact complete_of_heads stmt hsecond lacks_none
            · exact fun next _ => ⟨token, rfl, rfl⟩

end Declarations

/-! ### All parts -/

theorem recognized_of_derives {part : Part} {ts : List Token} {tree : part.Tree}
    (h : Derives part ts tree) : Recognized part ts tree := by
  induction h with
  | level _ hrest ih ih' => exact recognized_level ih ih' hrest.heads
  | noOperator => exact recognized_noOperator
  | operator htoken _ hrest ih ih' => exact recognized_operator htoken ih ih' hrest.heads
  | noAssignment _ ih => exact recognized_noAssignment ih
  | assignVariable _ hequals _ ih ih' => exact recognized_assignVariable ih hequals ih'
  | assignProperty _ hequals _ ih ih' => exact recognized_assignProperty ih hequals ih'
  | noConditional _ ih => exact recognized_noConditional ih
  | conditional _ hquestion _ hcolon _ ih ih' ih'' =>
    exact recognized_conditional ih hquestion ih' hcolon ih''
  | noUnary h ih => exact recognized_noUnary ih h.heads
  | unary htoken _ ih => exact recognized_unary htoken ih
  | call _ _ ih ih' => exact recognized_call ih ih'
  | noAccess => exact recognized_noAccess
  | arguments hopening _ hclosing _ ih ih' => exact recognized_callAccess hopening ih hclosing ih'
  | property hdot hname _ ih => exact recognized_property hdot hname ih
  | noArguments => exact recognized_noArguments
  | someArguments h hlength ih => exact recognized_someArguments ih h.heads hlength
  | lastArgument _ ih => exact recognized_lastArgument ih
  | moreArguments _ hcomma _ ih ih' => exact recognized_moreArguments ih hcomma ih'
  | atom hatom => exact recognized_atom hatom
  | group hopening _ hclosing ih => exact recognized_group hopening ih hclosing
  | superMethod hword hdot hname => exact recognized_superMethod hword hdot hname
  | functionExpr hword _ ih => exact recognized_functionExpr hword ih
  | noExpression => exact recognized_noExpression
  | someExpression h ih => exact recognized_someExpression ih h.heads
  | function hopening hparams hclosing _ ih =>
    exact recognized_function hopening hparams hclosing ih
  | block hopening _ hclosing ih => exact recognized_block hopening ih hclosing
  | getter hname _ ih => exact recognized_getter hname ih
  | method hname _ ih => exact recognized_method hname ih
  | noMember => exact recognized_noMember
  | useMember hword hnames hsemicolon _ ih => exact recognized_useMember hword hnames hsemicolon ih
  | classMember hword _ _ ih ih' => exact recognized_classMember hword ih ih'
  | instanceMember h _ ih ih' => exact recognized_instanceMember ih h.heads ih'
  | classBody hopening _ hclosing ih => exact recognized_classBody hopening ih hclosing
  | exprStmt h hsemicolon ih => exact recognized_exprStmt ih h.heads hsemicolon
  | printStmt hword _ hsemicolon ih => exact recognized_printStmt hword ih hsemicolon
  | ifStmt hword hopening _ hclosing _ ih ih' =>
    exact recognized_ifStmt hword hopening ih hclosing ih'
  | ifElseStmt hword hopening _ hclosing _ hnearest helse _ ih ih' ih'' =>
      exact recognized_ifElseStmt hword hopening ih hclosing ih' hnearest helse ih''
  | whileStmt hword hopening _ hclosing _ ih ih' =>
    exact recognized_whileStmt hword hopening ih hclosing ih'
  | forStmt hword hopening _ _ hsemicolon _ hclosing _ ihinitial ihcondition ihincrement ihbody =>
      exact recognized_forStmt hword hopening ihinitial ihcondition hsemicolon ihincrement
        hclosing ihbody
  | noInitial hsemicolon => exact recognized_noInitial hsemicolon
  | varInitial _ ih => exact recognized_varInitial ih
  | exprInitial h hsemicolon ih => exact recognized_exprInitial ih h.heads hsemicolon
  | returnStmt hword _ hsemicolon ih => exact recognized_returnStmt hword ih hsemicolon
  | jumpStmt hword hsemicolon => exact recognized_jumpStmt hword hsemicolon
  | blockStmt _ ih => exact recognized_blockStmt ih
  | varDecl hword hname hsemicolon => exact recognized_varDecl hword hname hsemicolon
  | varDeclValue hword hname hequals _ hsemicolon ih =>
    exact recognized_varDeclValue hword hname hequals ih hsemicolon
  | classDecl hword hname hparent hbody ih =>
    exact recognized_classDecl hword hname hparent ih hbody.heads
  | traitDecl hword hname _ ih => exact recognized_traitDecl hword hname ih
  | funDecl hword hname _ ih => exact recognized_funDecl hword hname ih
  | varDeclaration _ ih => exact recognized_varDeclaration ih
  | statement h ih => exact recognized_statement ih h.heads
  | noDeclaration => exact recognized_noDeclaration
  | moreDeclarations h hrest ih ih' => exact recognized_moreDeclarations ih h.heads ih' hrest.heads

end TraitScript.Parse
