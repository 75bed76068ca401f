import TraitScript.Proofs.Parse.Program

/-!
# Single expressions

A list of tokens is parsed as a single expression without an error if and only if it is derivable as
an expression. No list of tokens is an expression and a program: a program that starts like an
expression starts with an expression and a semicolon, and reading an expression never goes past
that. No expression ends with a semicolon either, though one can end with a brace.
-/

namespace TraitScript

open Parse

namespace Grammar

variable {ts us : List Token} {token : Token} {e e' : Expr}

/-! ### Last tokens -/

/-- The last token is no semicolon. -/
def Unterminated (ts : List Token) : Prop :=
  ∀ token, ts.getLast? = some token → token.isSymbol .semicolon = false

theorem unterminated_nil : Unterminated [] := nofun

theorem Unterminated.append (h : Unterminated ts) (h' : Unterminated us) :
    Unterminated (ts ++ us) := by
  intro last hlast
  rw [List.getLast?_append] at hlast
  cases hus : us.getLast? with
  | none =>
      rw [hus] at hlast
      exact h last hlast
  | some _ =>
      rw [hus] at hlast
      exact h' last (by rw [hus]; exact hlast)

theorem unterminated_singleton (htoken : token.isSymbol .semicolon = false) :
    Unterminated [token] := by
  intro last hlast
  cases hlast
  exact htoken

theorem Unterminated.cons (htoken : token.isSymbol .semicolon = false) (h : Unterminated ts) :
    Unterminated (token :: ts) :=
  (unterminated_singleton htoken).append h

/-- Only what comes last matters. -/
theorem Unterminated.after (ts : List Token) (h : Unterminated (token :: us)) :
    Unterminated (ts ++ token :: us) := by
  intro last hlast
  rw [List.getLast?_append, List.getLast?_cons] at hlast
  exact h last (by rw [List.getLast?_cons]; exact hlast)

theorem not_semicolon_of_symbol {symbol : Symbol} (h : token.isSymbol symbol = true)
    (hne : symbol ≠ .semicolon) : token.isSymbol .semicolon = false := by
  simp [Token.isSymbol, Token.isSymbol_iff.1 h, hne]

theorem not_semicolon_of_keyword {keyword : Keyword} (h : token.isKeyword keyword = true) :
    token.isSymbol .semicolon = false := by
  simp [Token.isSymbol, Token.isKeyword_iff.1 h]

theorem not_semicolon_of_identifier (h : token.isIdentifier = true) :
    token.isSymbol .semicolon = false := by
  simp [Token.isSymbol, Token.isIdentifier_iff.1 h]

/-- Parts that an expression can end with are not ended by a semicolon. -/
def Tails : Part → List Token → Prop
  | .expr _, ts | .operators _ _, ts | .accesses _, ts | .function _, ts | .block _, ts =>
    Unterminated ts
  | _, _ => True

theorem Derives.tails {part : Part} {ts : List Token} {tree : part.Tree}
    (h : Derives part ts tree) : Tails part ts := by
  induction h with
  | level _ _ ih ih' | call _ _ ih ih' => exact ih.append ih'
  | noOperator | noAccess => exact unterminated_nil
  | @operator level _ _ _ token _ _ htoken _ _ ih ih' =>
      refine .cons ?_ (ih.append ih')
      rw [← Bool.not_eq_true, Token.isSymbol_iff]
      intro hkind
      rw [hkind] at htoken
      cases level <;> cases htoken
  | noAssignment _ ih | noConditional _ ih | noUnary _ ih => exact ih
  | assignVariable _ hequals _ _ ih' | assignProperty _ hequals _ _ ih' =>
      exact .after _ (.cons (not_semicolon_of_symbol hequals (by decide)) ih')
  | conditional _ _ _ hcolon _ _ _ ih'' =>
      rw [← List.cons_append, ← List.append_assoc]
      exact .after _ (.cons (not_semicolon_of_symbol hcolon (by decide)) ih'')
  | unary htoken _ ih =>
      rcases htoken with
        htoken | htoken <;> exact .cons (not_semicolon_of_symbol htoken (by decide)) ih
  | arguments _ _ hclosing _ _ ih' =>
      rw [← List.cons_append]
      exact .after _ (.cons (not_semicolon_of_symbol hclosing (by decide)) ih')
  | property hdot hname _ ih =>
      exact .cons (not_semicolon_of_symbol hdot (by decide))
        (.cons (not_semicolon_of_identifier hname) ih)
  | atom hatom =>
      apply unterminated_singleton
      cases hatom with
      | number hkind | string hkind => simp [Token.isSymbol, hkind]
      | trueWord hkind | falseWord hkind | nilWord hkind | thisWord hkind =>
        exact not_semicolon_of_keyword hkind
      | identifier hkind => exact not_semicolon_of_identifier hkind
  | group _ _ hclosing _ | block _ _ hclosing _ =>
      rw [← List.cons_append]
      exact .after _ (unterminated_singleton (not_semicolon_of_symbol hclosing (by decide)))
  | superMethod _ _ hname =>
    exact .after [_, _] (unterminated_singleton (not_semicolon_of_identifier hname))
  | functionExpr hword _ ih => exact .cons (not_semicolon_of_keyword hword) ih
  | function _ _ hclosing _ ih =>
      rw [← List.cons_append]
      exact .after _ (.cons (not_semicolon_of_symbol hclosing (by decide)) ih)
  | _ => trivial

/-! ### Programs that start like expressions -/

/-- An expression is not continued by a token that does not go on with it. -/
theorem eq_nil_of_derives_append (h : Derives (.expr .comma) ts e)
    (h' : Derives (.expr .comma) (ts ++ us) e') (hnext : Follows .comma us.head?) :
    us = [] := by
  have htakes := recognized_of_derives h (ts ++ us).length false
    (by rw [List.length_append]; exact Nat.le_add_right ..)
  have htakes' := recognized_of_derives h' (ts ++ us).length false (Nat.le_refl _)
  have hloops : (State.initial ⟨ts ++ us, .endOfSource 1, []⟩ 0).loopDepths ≠ [] := nofun
  obtain ⟨_, s, hread, hleft, -⟩ :=
    htakes (.initial ⟨ts ++ us, .endOfSource 1, []⟩ 0) us rfl hnext hloops nofun
  obtain ⟨_, s', hread', hleft', -⟩ :=
    htakes' (.initial ⟨ts ++ us, .endOfSource 1, []⟩ 0) [] (List.append_nil _).symm
      nofun hloops nofun
  rw [hread] at hread'
  cases hread'
  rw [← hleft, hleft']

/-- A declaration that starts like an expression is an expression and a semicolon. -/
theorem exists_expression_of_opens {inLoop : Bool} {stmt : Stmt}
    (h : Derives (.declaration inLoop) ts stmt) (hopens : Opens startsExpression (ts ++ us)) :
    ∃ (vs : List Token) (semicolon : Token) (e : Expr), ts = vs ++ [semicolon] ∧
      semicolon.isSymbol .semicolon = true ∧ Derives (.expr .comma) vs e := by
  have hfirst : ∀ {first : Token} {rest : List Token} {kind : Token.Kind},
      Opens startsExpression (first :: rest) → first.kind = kind →
      startsExpression kind = true := by
    rintro first rest _ ⟨hstarts, -⟩ rfl
    exact hstarts
  cases h with
  | classDecl hword _ _ _ | traitDecl hword _ _ => cases hfirst hopens (Token.isKeyword_iff.1 hword)
  | funDecl hword hname _ =>
      obtain ⟨next, hnext, hparen⟩ := hopens.2 (Token.isKeyword_iff.1 hword)
      cases hnext
      rw [Token.isIdentifier_iff.1 hname] at hparen
      cases hparen
  | varDeclaration h =>
      obtain ⟨word, rest, rfl, hword⟩ := h.heads
      cases hfirst hopens hword
  | statement h =>
      cases h with
      | exprStmt h hsemicolon => exact ⟨_, _, _, rfl, hsemicolon, h⟩
      | printStmt hword _ _ | ifStmt hword _ _ _ _ | ifElseStmt hword _ _ _ _ _ _ _
      | whileStmt hword _ _ _ _ | forStmt hword _ _ _ _ _ _ _
      | returnStmt hword _ _ => cases hfirst hopens (Token.isKeyword_iff.1 hword)
      | @jumpStmt _ _ kind hword _ =>
          have hstarts := hfirst hopens (Token.isKeyword_iff.1 hword)
          cases kind <;> cases hstarts
      | blockStmt h =>
          obtain ⟨opening, rest, rfl, hopening⟩ := h.heads
          cases hfirst hopens hopening

/-- No list of tokens is a program and an expression. -/
theorem not_derives_of_program {tokens : List Token} {statements : List Stmt}
    (h : Program tokens statements) (e : Expr) :
    ¬ Derives (.expr .comma) tokens e := by
  intro he
  cases h with
  | noDeclaration => exact he.heads
  | moreDeclarations h _ =>
      obtain ⟨vs, semicolon, e', rfl, hsemicolon, he'⟩ := exists_expression_of_opens h he.heads
      rw [List.append_assoc] at he
      have hnone := eq_nil_of_derives_append he' he (follows_symbol hsemicolon (by decide))
      cases hnone

end Grammar

/-! ### Parsing single expressions -/

theorem expression_of_parseExpression {scanned : Scanned} {firstId : Nat}
    (hlast : scanned.last.kind = .eof) (herrors : (parseExpression scanned firstId).errors = []) :
    ∃ expr, (parseExpression scanned firstId).value = some expr ∧
      Grammar.Derives (.expr .comma) scanned.tokens expr.withoutIds := by
  have hready : (State.initial scanned firstId).Ready := ⟨hlast, by simp [State.initial]⟩
  have hlone : Yields (loneExpression scanned.tokens.length) fun _ ts expr next =>
      Grammar.Derives (.expr .comma) ts expr.withoutIds ∧ next = none := by
    refine (derive_rules (scanned.tokens.length + 1)).expression.bind fun expr =>
      yields_atEnd.bind fun ended => ?_
    split
    next hended =>
      refine yields_pure fun l next us hus ts hts => ?_
      rw [hus.1, List.append_nil, List.append_nil]
      exact ⟨hts, hus.2 hended⟩
    next => exact yields_fail _
  have hyields := hlone _ hready
  rw [parseExpression] at herrors ⊢
  split at hyields
  next expr s heq =>
    rw [heq] at herrors ⊢
    obtain ⟨-, ts, hrest, hderives, hend⟩ := hyields.2 herrors
    have htokens : scanned.tokens = ts ++ s.rest := hrest
    rw [htokens, List.head?_eq_none_iff.1 hend, List.append_nil]
    exact ⟨expr, rfl, hderives⟩
  next error s heq =>
    rw [heq] at herrors
    simp at herrors

theorem parseExpression_of_expression {scanned : Scanned} {e : Expr} (firstId : Nat)
    (h : Grammar.Derives (.expr .comma) scanned.tokens e) :
    (parseExpression scanned firstId).errors = [] ∧
      ∃ expr, (parseExpression scanned firstId).value = some expr ∧ expr.withoutIds = e := by
  have htakes : Takes (loneExpression scanned.tokens.length) false scanned.tokens (· = none)
      (·.withoutIds = e) := by
    apply (recognized_of_derives h scanned.tokens.length false (Nat.le_refl _)).last
    · intro read hread
      apply takes_atEnd.look
      · exact takes_pure hread
      · exact fun next hnext => hnext
    · rintro next rfl
      exact nofun
  obtain ⟨read, s, hread, -, herrors, -, htree⟩ :=
    htakes (.initial scanned firstId) [] (List.append_nil _).symm rfl
      (by simp [State.initial]) nofun
  rw [parseExpression, hread]
  exact ⟨herrors, read, rfl, htree⟩

end TraitScript
