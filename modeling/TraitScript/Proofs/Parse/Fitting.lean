import TraitScript.Proofs.Parse.Grammar
import TraitScript.Proofs.Parse.Written
import TraitScript.Proofs.Tree.Node

/-!
# Tokens in their places

Whatever is read, and also when the reader reports errors and goes on, every token of a tree is one
of those that were read and has a kind that fits its place: operators are operators of their rule,
names are identifiers, and keywords are the words that their statements and expressions start with.
Numbers, strings and `for` loops stand where there was a token for them. Getters have no parameters.
-/

namespace TraitScript

def binaryOperators : List Symbol :=
  [.slash, .star, .minus, .plus, .greater, .greaterEqual, .less, .lessEqual, .bangEqual,
    .equalEqual, .comma]

/-- That the tokens of a node, all of which satisfy a condition, have kinds that fit their
places. -/
def Node.Fits (ok : Token → Prop) : Node → Prop
  | .expr (.literal (.number value)) => ∃ token, ok token ∧ token.kind = .number value
  | .expr (.literal (.string text)) => ∃ token, ok token ∧ token.kind = .string text
  | .expr (.unary operator _) => ok operator ∧ Parse.isAnySymbol [.bang, .minus] operator = true
  | .expr (.binary _ operator _) => ok operator ∧ Parse.isAnySymbol binaryOperators operator = true
  | .expr (.logical _ operator _) =>
    ok operator ∧ (operator.isKeyword .andWord || operator.isKeyword .orWord) = true
  | .expr (.variable _ name) | .expr (.assign _ name _) | .expr (.get _ name)
  | .expr (.set _ name _) => ok name ∧ name.isIdentifier = true
  | .expr (.call _ paren _) => ok paren ∧ paren.isSymbol .rightParen = true
  | .expr (.this _ keyword) => ok keyword ∧ keyword.kind = .keyword .thisWord
  | .expr (.super _ keyword method) =>
    (ok keyword ∧ keyword.kind = .keyword .superWord) ∧ ok method ∧ method.isIdentifier = true
  | .function ⟨name, params, _, isGetter⟩ =>
    (∀ token ∈ name.toList ++ params, ok token ∧ token.isIdentifier = true) ∧
      (isGetter = true → params = [])
  | .stmt (.variable name _) | .stmt (.classDecl name _ _) | .stmt (.traitDecl name _) =>
    ok name ∧ name.isIdentifier = true
  | .stmt (.jump keyword kind) => ok keyword ∧ keyword.kind = .keyword (Grammar.jumpKeyword kind)
  | .stmt (.returnValue keyword _) => ok keyword ∧ keyword.kind = .keyword .returnWord
  | .stmt (.forLoop ..) => ∃ keyword, ok keyword ∧ keyword.kind = .keyword .forWord
  | _ => True

def Expr.Fits (ok : Token → Prop) (expr : Expr) : Prop := (Node.expr expr).All (Node.Fits ok)

def FunctionDecl.Fits (ok : Token → Prop) (decl : FunctionDecl) : Prop :=
  (Node.function decl).All (Node.Fits ok)

def ClassBody.Fits (ok : Token → Prop) (body : ClassBody) : Prop :=
  (Node.body body).All (Node.Fits ok)

def Stmt.Fits (ok : Token → Prop) (stmt : Stmt) : Prop := (Node.stmt stmt).All (Node.Fits ok)

/-- A demand on tokens only. -/
def Demand.onTokens (ok : Token → Prop) : Demand where
  token := ok
  use _ _ := True
  read _ _ := trivial
  write _ := trivial
  this _ _ := trivial
  super _ _ := trivial
  declare _ _ := trivial
  reference := trivial
  jump _ := trivial
  returnValue := trivial

namespace Parse

variable {ok : Token → Prop} {r : Rules} {α β : Type}

/-- Whatever tokens that satisfy a condition are read, what is returned satisfies another. -/
structure Returns (ok : Token → Prop) (x : Parser α) (Q : α → Prop) : Prop where
  reads : ∀ loops s, Reads (.onTokens ok) loops x (fun a _ => Q a) s

section Returns

variable {x : Parser α} {Q : α → Prop}

theorem Returns.bind {f : α → Parser β} {R : β → Prop} (hx : Returns ok x Q)
    (hf : ∀ a, Q a → Returns ok (f a) R) : Returns ok (x >>= f) R :=
  ⟨fun loops s => (hx.reads loops s).bind fun a s' _ ha => (hf a ha).reads loops s'⟩

theorem returns_pure (a : α) (h : Q a) : Returns ok (pure a) Q := ⟨fun _ _ => reads_pure a h⟩

theorem returns_fail (cause : ParseError.Cause) : Returns ok (fail cause) Q :=
  ⟨fun _ _ => reads_fail cause⟩

theorem returns_throw (error : ParseError) : Returns ok (throw error) Q :=
  ⟨fun _ _ => reads_throw error⟩

theorem returns_next : Returns ok next fun token => ok token := ⟨fun _ _ => reads_next⟩

theorem returns_accept (test : Token → Bool) :
    Returns ok (accept test) fun found => ∀ token, found = some token →
      ok token ∧ test token = true :=
  ⟨fun _ _ => reads_accept test⟩

theorem returns_expectSymbol (symbol : Symbol) (position : Position) :
    Returns ok (expectSymbol symbol position) fun token =>
      ok token ∧ token.isSymbol symbol = true := ⟨fun _ _ => reads_expect _ _⟩

theorem returns_expectName (role : NameRole) :
    Returns ok (expectName role) fun name => ok name ∧ name.isIdentifier = true :=
  ⟨fun _ _ => reads_expect _ _⟩

theorem returns_check (test : Token → Bool) : Returns ok (check test) fun _ => True :=
  ⟨fun _ _ => reads_check test⟩

theorem returns_atEnd : Returns ok atEnd fun _ => True := ⟨fun _ _ => reads_atEnd⟩

theorem returns_remaining : Returns ok remaining fun _ => True := ⟨fun _ _ => reads_remaining⟩

theorem returns_insideLoop : Returns ok insideLoop fun _ => True :=
  ⟨fun _ _ => reads_insideLoop.mono fun _ _ _ _ => trivial⟩

theorem returns_startsFunction : Returns ok startsFunction fun _ => True :=
  ⟨fun _ _ => reads_startsFunction⟩

theorem returns_freshId : Returns ok freshId fun _ => True :=
  ⟨fun _ _ => reads_freshId.mono fun _ _ _ _ => trivial⟩

theorem returns_report (token : Token) (cause : ParseError.Cause) :
    Returns ok (report token cause) fun _ => True :=
  ⟨fun _ _ => reads_report token cause⟩

theorem returns_acceptSymbol (symbol : Symbol) : Returns ok (acceptSymbol symbol) fun _ => True :=
  ⟨fun _ _ => reads_acceptSymbol symbol⟩

theorem returns_acceptKeyword (keyword : Keyword) :
    Returns ok (acceptKeyword keyword) fun _ => True := ⟨fun _ _ => reads_acceptKeyword keyword⟩

theorem returns_checkCount (count : Nat) (cause : ParseError.Cause) :
    Returns ok (checkCount count cause) fun _ => True :=
  ⟨fun _ _ => reads_checkCount count cause⟩

theorem returns_inLoop (h : Returns ok x Q) : Returns ok (inLoop x) Q :=
  ⟨fun _ s => reads_inLoop (fun _ a _ => Q a) (h.reads _) s⟩

theorem returns_inFunction (h : Returns ok x Q) : Returns ok (inFunction x) Q :=
  ⟨fun _ s => reads_inFunction (fun _ a _ => Q a) (h.reads _) s⟩

theorem returns_dispatch {choose : Token → Option (Parser α)} {other : Parser α}
    (hchoose : ∀ token rule, ok token → choose token = some rule → Returns ok rule Q)
    (hother : Returns ok other Q) : Returns ok (dispatch choose other) Q := by
  refine returns_next.bind fun token htoken => ?_
  split
  next rule hrule => exact (returns_accept _).bind fun _ _ => hchoose token rule htoken hrule
  next => exact hother

end Returns

/-- All rules put tokens in places that they fit. -/
structure Rules.Fit (ok : Token → Prop) (r : Rules) : Prop where
  expression : Returns ok r.expression (·.Fits ok)
  assignment : Returns ok r.assignment (·.Fits ok)
  conditional : Returns ok r.conditional (·.Fits ok)
  comparison : Returns ok r.comparison (·.Fits ok)
  term : Returns ok r.term (·.Fits ok)
  factor : Returns ok r.factor (·.Fits ok)
  unary : Returns ok r.unary (·.Fits ok)
  statement : Returns ok r.statement (·.Fits ok)
  declaration : Returns ok r.declaration fun found => ∀ stmt, found = some stmt → stmt.Fits ok

/-! ### Levels of binary operators -/

theorem returns_leftAssociativeFrom {operand : Parser Expr} {operator : Token → Bool}
    {node : Expr → Token → Expr → Expr} (hoperand : Returns ok operand (·.Fits ok))
    (hnode : ∀ left token right, left.Fits ok → ok token → operator token = true → right.Fits ok →
      (node left token right).Fits ok)
    (bound : Nat) {left : Expr} (hleft : left.Fits ok) :
    Returns ok (leftAssociativeFrom operand operator node bound left) (·.Fits ok) := by
  induction bound generalizing left with
  | zero => exact returns_pure left hleft
  | succ bound ih =>
      refine (returns_accept operator).bind fun found hfound => ?_
      cases found with
      | none => exact returns_pure left hleft
      | some token =>
          obtain ⟨hok, htest⟩ := hfound token rfl
          exact hoperand.bind fun right hright => ih (hnode left token right hleft hok htest hright)

theorem returns_leftAssociative {operand : Parser Expr} {operator : Token → Bool}
    {node : Expr → Token → Expr → Expr} (hoperand : Returns ok operand (·.Fits ok))
    (hnode : ∀ left token right, left.Fits ok → ok token → operator token = true → right.Fits ok →
      (node left token right).Fits ok) :
    Returns ok (leftAssociative operand operator node) (·.Fits ok) :=
  hoperand.bind fun _ hleft => returns_remaining.bind fun bound _ =>
    returns_leftAssociativeFrom hoperand hnode bound hleft

theorem returns_binary {operand : Parser Expr} {symbols : List Symbol}
    (hsymbols : symbols ⊆ binaryOperators) (hoperand : Returns ok operand (·.Fits ok)) :
    Returns ok (leftAssociative operand (isAnySymbol symbols) .binary) (·.Fits ok) := by
  refine returns_leftAssociative hoperand fun left token right hleft hok htest hright =>
    Node.all_iff.2 ⟨⟨hok, ?_⟩, ?_⟩
  · obtain ⟨symbol, hmem, hsymbol⟩ := List.any_eq_true.1 htest
    exact List.any_eq_true.2 ⟨symbol, hsymbols hmem, hsymbol⟩
  · exact List.forall_mem_cons.2 ⟨hleft, List.forall_mem_singleton.2 hright⟩

theorem returns_logical {operand : Parser Expr} {keyword : Keyword}
    (hkeyword : keyword = .andWord ∨ keyword = .orWord)
    (hoperand : Returns ok operand (·.Fits ok)) :
    Returns ok (leftAssociative operand (·.isKeyword keyword) .logical) (·.Fits ok) := by
  refine returns_leftAssociative hoperand fun left token right hleft hok htest hright =>
    Node.all_iff.2 ⟨⟨hok, ?_⟩, ?_⟩
  · rw [Bool.or_eq_true]
    rcases hkeyword with rfl | rfl
    · exact .inl htest
    · exact .inr htest
  · exact List.forall_mem_cons.2 ⟨hleft, List.forall_mem_singleton.2 hright⟩

/-! ### Functions -/

theorem returns_parameters :
    Returns ok parameters fun params => ∀ param ∈ params, ok param ∧ param.isIdentifier = true :=
  ⟨fun _ s => reads_parameters s⟩

theorem returns_statementsFrom (hr : r.Fit ok) (bound : Nat) :
    Returns ok (statementsFrom r bound) fun statements => ∀ stmt ∈ statements, stmt.Fits ok := by
  induction bound with
  | zero => exact returns_pure [] (by simp)
  | succ bound ih =>
      refine (returns_check _).bind fun closing _ => returns_atEnd.bind fun ended _ => ?_
      split
      · exact returns_pure [] (by simp)
      · refine hr.declaration.bind fun found hfound => ?_
        cases found with
        | none => exact ih
        | some stmt =>
          exact ih.bind fun statements hstatements =>
            returns_pure _ (List.forall_mem_cons.2 ⟨hfound stmt rfl, hstatements⟩)

theorem returns_block (hr : r.Fit ok) :
    Returns ok (block r) fun statements => ∀ stmt ∈ statements, stmt.Fits ok :=
  returns_remaining.bind fun bound _ =>
    (returns_statementsFrom hr bound).bind fun statements hstatements =>
    (returns_expectSymbol _ _).bind fun _ _ => returns_pure statements hstatements

theorem fits_function {name : Option Token} {params : List Token} {body : List Stmt}
    {isGetter : Bool} (hname : ∀ token, name = some token → ok token ∧ token.isIdentifier = true)
    (hparams : ∀ param ∈ params, ok param ∧ param.isIdentifier = true)
    (hbody : ∀ stmt ∈ body, stmt.Fits ok) (hgetter : isGetter = true → params = []) :
    FunctionDecl.Fits ok ⟨name, params, body, isGetter⟩ := by
  refine Node.all_iff.2 ⟨⟨fun token htoken => ?_, hgetter⟩, List.forall_mem_map.2 hbody⟩
  rcases List.mem_append.1 htoken with htoken | htoken
  · exact hname token (Option.mem_toList.1 htoken)
  · exact hparams token htoken

theorem returns_functionRest (hr : r.Fit ok) {name : Option Token}
    (hname : ∀ token, name = some token → ok token ∧ token.isIdentifier = true)
    (beforeBody : Position) : Returns ok (functionRest r name beforeBody) (·.Fits ok) := by
  refine returns_parameters.bind fun params hparams => (returns_expectSymbol _ _).bind fun _ _ =>
    (returns_expectSymbol _ _).bind fun _ _ => ?_
  exact (returns_inFunction (returns_block hr)).bind fun body hbody =>
    returns_pure _ (fits_function hname hparams hbody nofun)

/-! ### Expressions -/

theorem fits_leaf {expr : Expr} (hfits : (Node.expr expr).Fits ok)
    (hchildren : (Node.expr expr).children = []) : expr.Fits ok :=
  Node.all_iff.2 ⟨hfits, by simp [hchildren]⟩

theorem fits_inner {expr inner : Expr} (hfits : (Node.expr expr).Fits ok)
    (hchildren : (Node.expr expr).children = [.expr inner]) (hinner : inner.Fits ok) :
    expr.Fits ok := by
  refine Node.all_iff.2 ⟨hfits, ?_⟩
  rw [hchildren]
  exact List.forall_mem_singleton.2 hinner

theorem returns_orphanOperand {operators : List (List Symbol × Parser Expr)}
    (h : ∀ entry ∈ operators, Returns ok entry.2 (·.Fits ok)) :
    Returns ok (orphanOperand operators) (·.Fits ok) := by
  induction operators with
  | nil => exact returns_fail _
  | cons entry rest ih =>
      obtain ⟨hentry, hrest⟩ := List.forall_mem_cons.1 h
      obtain ⟨symbols, operand⟩ := entry
      refine (returns_accept _).bind fun found _ => ?_
      cases found with
      | none => exact ih hrest
      | some token =>
          exact (returns_report _ _).bind fun _ _ => hentry.bind fun _ _ =>
            returns_pure _ (fits_leaf trivial rfl)

theorem returns_keywordExpression (hr : r.Fit ok) {token : Token} {keyword : Keyword}
    (htoken : ok token) (hkind : token.kind = .keyword keyword) {rule : Parser Expr}
    (hrule : keywordExpression r token keyword = some rule) : Returns ok rule (·.Fits ok) := by
  unfold keywordExpression at hrule
  split at hrule <;> cases hrule
  · exact returns_pure _ (fits_leaf trivial rfl)
  · exact returns_pure _ (fits_leaf trivial rfl)
  · exact returns_pure _ (fits_leaf trivial rfl)
  · exact returns_freshId.bind fun id _ => returns_pure _ (fits_leaf ⟨htoken, hkind⟩ rfl)
  · refine (returns_expectSymbol _ _).bind fun _ _ =>
      (returns_expectName _).bind fun method hmethod => returns_freshId.bind fun id _ => ?_
    exact returns_pure _ (fits_leaf ⟨⟨htoken, hkind⟩, hmethod⟩ rfl)
  · refine (returns_expectSymbol _ _).bind fun _ _ =>
      (returns_functionRest hr (by simp) _).bind fun decl hdecl => returns_pure _ ?_
    exact Node.all_iff.2 ⟨trivial, List.forall_mem_singleton.2 hdecl⟩

theorem returns_primaryFrom (hr : r.Fit ok) {token : Token} (htoken : ok token) {rule : Parser Expr}
    (hrule : primaryFrom r token = some rule) :
    Returns ok rule (·.Fits ok) := by
  unfold primaryFrom at hrule
  split at hrule
  next value hkind =>
    cases hrule
    exact returns_pure _ (fits_leaf ⟨token, htoken, hkind⟩ rfl)
  next text hkind =>
    cases hrule
    exact returns_pure _ (fits_leaf ⟨token, htoken, hkind⟩ rfl)
  next hkind =>
    cases hrule
    exact returns_freshId.bind fun id _ =>
      returns_pure _ (fits_leaf ⟨htoken, by simp [Token.isIdentifier, hkind]⟩ rfl)
  next keyword hkind => exact returns_keywordExpression hr htoken hkind hrule
  next =>
    cases hrule
    exact hr.expression.bind fun inner hinner => (returns_expectSymbol _ _).bind fun _ _ =>
      returns_pure _ (fits_inner trivial rfl hinner)
  next => cases hrule

theorem returns_primary (hr : r.Fit ok) : Returns ok (primary r) (·.Fits ok) := by
  refine returns_dispatch (fun token rule htoken hrule => returns_primaryFrom hr htoken hrule)
    (returns_orphanOperand fun entry hentry => ?_)
  simp only [orphanOperators, List.mem_cons, List.not_mem_nil, or_false] at hentry
  rcases hentry with rfl | rfl | rfl | rfl | rfl
  · exact hr.comparison
  · exact hr.term
  · exact hr.factor
  · exact hr.unary
  · exact hr.assignment

theorem returns_argumentsFrom (hr : r.Fit ok) (bound count : Nat) :
    Returns ok (argumentsFrom r bound count) fun args => ∀ arg ∈ args, arg.Fits ok := by
  induction bound generalizing count with
  | zero =>
    exact (returns_checkCount _ _).bind fun _ _ => hr.assignment.bind fun arg harg =>
      returns_pure _ (List.forall_mem_singleton.2 harg)
  | succ bound ih =>
      refine (returns_checkCount _ _).bind fun _ _ => hr.assignment.bind fun arg harg =>
        (returns_acceptSymbol _).bind fun more _ => ?_
      split
      · exact (ih (count + 1)).bind fun args hargs =>
          returns_pure _ (List.forall_mem_cons.2 ⟨harg, hargs⟩)
      · exact returns_pure _ (List.forall_mem_singleton.2 harg)

theorem returns_arguments (hr : r.Fit ok) :
    Returns ok (arguments r) fun args => ∀ arg ∈ args, arg.Fits ok := by
  refine (returns_check _).bind fun closing _ => ?_
  split
  · exact returns_pure [] (by simp)
  · exact returns_remaining.bind fun bound _ => returns_argumentsFrom hr bound 0

theorem returns_callRest (hr : r.Fit ok) {callee : Expr} (hcallee : callee.Fits ok) :
    Returns ok (callRest r callee) (·.Fits ok) := by
  refine (returns_arguments hr).bind fun args hargs =>
    (returns_expectSymbol _ _).bind fun paren hparen => returns_pure _ (Node.all_iff.2 ⟨hparen, ?_⟩)
  exact List.forall_mem_cons.2 ⟨hcallee, List.forall_mem_map.2 hargs⟩

theorem returns_accessesFrom (hr : r.Fit ok) (bound : Nat) {expr : Expr} (hexpr : expr.Fits ok) :
    Returns ok (accessesFrom r bound expr) (·.Fits ok) := by
  induction bound generalizing expr with
  | zero => exact returns_pure expr hexpr
  | succ bound ih =>
      refine (returns_acceptSymbol _).bind fun isCall _ => ?_
      split
      · exact (returns_callRest hr hexpr).bind fun _ hcall => ih hcall
      · refine (returns_acceptSymbol _).bind fun isGet _ => ?_
        split
        · exact (returns_expectName _).bind fun name hname => ih (fits_inner hname rfl hexpr)
        · exact returns_pure expr hexpr

theorem returns_call (hr : r.Fit ok) : Returns ok (call r) (·.Fits ok) :=
  (returns_primary hr).bind fun _ hexpr => returns_remaining.bind fun bound _ =>
    returns_accessesFrom hr bound hexpr

theorem returns_unary (hr : r.Fit ok) : Returns ok (unary r) (·.Fits ok) := by
  refine (returns_accept _).bind fun found hfound => ?_
  cases found with
  | none => exact returns_call hr
  | some operator =>
    exact hr.unary.bind fun right hright =>
      returns_pure _ (fits_inner (hfound operator rfl) rfl hright)

theorem returns_factor (hr : r.Fit ok) : Returns ok (factor r) (·.Fits ok) :=
  returns_binary (by decide) (returns_unary hr)

theorem returns_term (hr : r.Fit ok) : Returns ok (term r) (·.Fits ok) :=
  returns_binary (by decide) (returns_factor hr)

theorem returns_comparison (hr : r.Fit ok) : Returns ok (comparison r) (·.Fits ok) :=
  returns_binary (by decide) (returns_term hr)

theorem returns_equality (hr : r.Fit ok) : Returns ok (equality r) (·.Fits ok) :=
  returns_binary (by decide) (returns_comparison hr)

theorem returns_logicalAnd (hr : r.Fit ok) : Returns ok (logicalAnd r) (·.Fits ok) :=
  returns_logical (.inl rfl) (returns_equality hr)

theorem returns_logicalOr (hr : r.Fit ok) : Returns ok (logicalOr r) (·.Fits ok) :=
  returns_logical (.inr rfl) (returns_logicalAnd hr)

theorem returns_conditional (hr : r.Fit ok) : Returns ok (conditional r) (·.Fits ok) := by
  refine (returns_logicalOr hr).bind fun condition hcondition =>
    (returns_acceptSymbol _).bind fun more _ => ?_
  split
  · refine hr.expression.bind fun thenBranch hthen => (returns_expectSymbol _ _).bind fun _ _ =>
      hr.conditional.bind fun elseBranch helse => ?_
    refine returns_pure _ (Node.all_iff.2 ⟨trivial, ?_⟩)
    exact List.forall_mem_cons.2
      ⟨hcondition, List.forall_mem_cons.2 ⟨hthen, List.forall_mem_singleton.2 helse⟩⟩
  · exact returns_pure condition hcondition

theorem fits_assignTo {target value expr : Expr} (h : assignTo target value = some expr)
    (htarget : target.Fits ok) (hvalue : value.Fits ok) :
    expr.Fits ok := by
  obtain ⟨hfits, hchildren⟩ := Node.all_iff.1 htarget
  unfold assignTo at h
  split at h
  next id name =>
    cases h
    exact fits_inner hfits rfl hvalue
  next object name =>
    cases h
    exact Node.all_iff.2
      ⟨hfits, List.forall_mem_cons.2 ⟨List.forall_mem_singleton.1 hchildren,
        List.forall_mem_singleton.2 hvalue⟩⟩
  next => cases h

theorem returns_assignment (hr : r.Fit ok) : Returns ok (assignment r) (·.Fits ok) := by
  refine (returns_conditional hr).bind fun target htarget =>
    (returns_accept _).bind fun found _ => ?_
  cases found with
  | none => exact returns_pure target htarget
  | some equals =>
      refine hr.assignment.bind fun value hvalue => ?_
      split
      next expr hexpr => exact returns_pure expr (fits_assignTo hexpr htarget hvalue)
      next => exact (returns_report _ _).bind fun _ _ => returns_pure target htarget

theorem returns_expression (hr : r.Fit ok) : Returns ok (expression r) (·.Fits ok) :=
  returns_binary (by decide) (returns_assignment hr)

/-! ### Statements -/

theorem fits_of_expr {stmt : Stmt} {expr : Expr} (hfits : (Node.stmt stmt).Fits ok)
    (hchildren : (Node.stmt stmt).children = [.expr expr]) (hexpr : expr.Fits ok) :
    stmt.Fits ok := by
  refine Node.all_iff.2 ⟨hfits, ?_⟩
  rw [hchildren]
  exact List.forall_mem_singleton.2 hexpr

/-- An optional part fits if it does when it is there. -/
theorem fits_option {tree : Type} {node : tree → Node} {found : Option tree}
    (h : ∀ part, found = some part → (node part).All (Node.Fits ok)) :
    ∀ child ∈ found.toList.map node, child.All (Node.Fits ok) :=
  List.forall_mem_map.2 fun part hpart => h part (Option.mem_toList.1 hpart)

theorem returns_expressionStatement (hr : r.Fit ok) :
    Returns ok (expressionStatement r) (·.Fits ok) :=
  (returns_expression hr).bind fun _ hvalue => (returns_expectSymbol _ _).bind fun _ _ =>
    returns_pure _ (fits_of_expr trivial rfl hvalue)

theorem returns_printStatement (hr : r.Fit ok) : Returns ok (printStatement r) (·.Fits ok) :=
  (returns_expression hr).bind fun _ hvalue => (returns_expectSymbol _ _).bind fun _ _ =>
    returns_pure _ (fits_of_expr trivial rfl hvalue)

theorem returns_some {x : Parser α} {Q : α → Prop} (h : Returns ok x Q) :
    Returns ok (do return some (← x)) fun found => ∀ a, found = some a → Q a :=
  h.bind fun _ ha => returns_pure _ fun _ hother => Option.some_inj.1 hother ▸ ha

theorem returns_expressionUnless (hr : r.Fit ok) (symbol : Symbol) :
    Returns ok (expressionUnless r symbol) fun found => ∀ e, found = some e → e.Fits ok := by
  refine (returns_check _).bind fun absent _ => ?_
  split
  · exact returns_pure none nofun
  · exact returns_some (returns_expression hr)

theorem returns_returnStatement (hr : r.Fit ok) {keyword : Token}
    (hkeyword : ok keyword ∧ keyword.kind = .keyword .returnWord) :
    Returns ok (returnStatement r keyword) (·.Fits ok) :=
  (returns_expressionUnless hr _).bind fun _ hvalue => (returns_expectSymbol _ _).bind fun _ _ =>
    returns_pure _ (Node.all_iff.2 ⟨hkeyword, fits_option hvalue⟩)

theorem returns_jumpStatement {keyword : Token} {kind : Jump}
    (hkeyword : ok keyword ∧ keyword.kind = .keyword (Grammar.jumpKeyword kind)) :
    Returns ok (jumpStatement keyword kind) (·.Fits ok) := by
  refine returns_insideLoop.bind fun inside _ => ?_
  split
  · exact (returns_expectSymbol _ _).bind fun _ _ =>
      returns_pure _ (Node.all_iff.2 ⟨hkeyword, nofun⟩)
  · exact returns_throw _

theorem returns_initialValue (hr : r.Fit ok) :
    Returns ok (initialValue r) fun found => ∀ e, found = some e → e.Fits ok := by
  refine (returns_acceptSymbol _).bind fun given _ => ?_
  split
  · exact returns_some (returns_expression hr)
  · exact returns_pure none nofun

theorem returns_variableDeclaration (hr : r.Fit ok) :
    Returns ok (variableDeclaration r) (·.Fits ok) :=
  (returns_expectName _).bind fun _ hname => (returns_initialValue hr).bind fun _ hinitial =>
    (returns_expectSymbol _ _).bind fun _ _ =>
    returns_pure _ (Node.all_iff.2 ⟨hname, fits_option hinitial⟩)

theorem returns_elseBranch (hr : r.Fit ok) :
    Returns ok (elseBranch r) fun found => ∀ stmt, found = some stmt → stmt.Fits ok := by
  refine (returns_acceptKeyword _).bind fun given _ => ?_
  split
  · exact returns_some hr.statement
  · exact returns_pure none nofun

theorem returns_ifStatement (hr : r.Fit ok) : Returns ok (ifStatement r) (·.Fits ok) := by
  refine (returns_expectSymbol _ _).bind fun _ _ => (returns_expression hr).bind
    fun condition hcondition => (returns_expectSymbol _ _).bind fun _ _ => ?_
  refine hr.statement.bind fun thenBranch hthen => (returns_elseBranch hr).bind
    fun otherBranch hother => returns_pure _ (Node.all_iff.2 ⟨trivial, ?_⟩)
  exact List.forall_mem_cons.2 ⟨hcondition, List.forall_mem_cons.2 ⟨hthen, fits_option hother⟩⟩

theorem returns_whileStatement (hr : r.Fit ok) : Returns ok (whileStatement r) (·.Fits ok) := by
  refine (returns_expectSymbol _ _).bind fun _ _ => (returns_expression hr).bind
    fun condition hcondition => (returns_expectSymbol _ _).bind fun _ _ => ?_
  refine (returns_inLoop hr.statement).bind fun body hbody =>
    returns_pure _ (Node.all_iff.2 ⟨trivial, ?_⟩)
  exact List.forall_mem_cons.2 ⟨hcondition, List.forall_mem_singleton.2 hbody⟩

theorem returns_forInitial (hr : r.Fit ok) :
    Returns ok (forInitial r) fun found => ∀ stmt, found = some stmt → stmt.Fits ok := by
  refine (returns_acceptSymbol _).bind fun absent _ => ?_
  split
  · exact returns_pure none nofun
  · refine (returns_acceptKeyword _).bind fun isVariable _ => ?_
    split
    · exact returns_some (returns_variableDeclaration hr)
    · exact returns_some (returns_expressionStatement hr)

theorem returns_forStatement (hr : r.Fit ok) {keyword : Token}
    (hkeyword : ok keyword ∧ keyword.kind = .keyword .forWord) :
    Returns ok (forStatement r) (·.Fits ok) := by
  refine (returns_expectSymbol _ _).bind fun _ _ =>
    (returns_forInitial hr).bind fun initial hinitial => ?_
  refine (returns_expressionUnless hr _).bind fun condition hcondition =>
    (returns_expectSymbol _ _).bind fun _ _ => ?_
  refine (returns_expressionUnless hr _).bind fun increment hincrement =>
    (returns_expectSymbol _ _).bind fun _ _ => ?_
  refine (returns_inLoop hr.statement).bind fun body hbody =>
    returns_pure _ (Node.all_iff.2 ⟨⟨keyword, hkeyword⟩, List.forall_mem_cons.2 ⟨hbody, ?_⟩⟩)
  exact List.forall_mem_append.2
    ⟨List.forall_mem_append.2 ⟨fits_option hinitial, fits_option hcondition⟩,
      fits_option hincrement⟩

theorem returns_statementFrom (hr : r.Fit ok) {token : Token} (htoken : ok token)
    {rule : Parser Stmt} (hrule : statementFrom r token = some rule) :
    Returns ok rule (·.Fits ok) := by
  unfold statementFrom at hrule
  split at hrule <;> cases hrule
  next hkind => exact returns_forStatement hr ⟨htoken, hkind⟩
  next => exact returns_ifStatement hr
  next => exact returns_whileStatement hr
  next hkind => exact returns_returnStatement hr ⟨htoken, hkind⟩
  next hkind => exact returns_jumpStatement ⟨htoken, hkind⟩
  next hkind => exact returns_jumpStatement ⟨htoken, hkind⟩
  next => exact returns_printStatement hr
  next =>
    exact (returns_block hr).bind fun _ hstatements =>
      returns_pure _ (Node.all_iff.2 ⟨trivial, List.forall_mem_map.2 hstatements⟩)

theorem returns_statement (hr : r.Fit ok) : Returns ok (statement r) (·.Fits ok) :=
  returns_dispatch (fun _ _ htoken hrule => returns_statementFrom hr htoken hrule)
    (returns_expressionStatement hr)

/-! ### Classes, traits and functions -/

theorem returns_method (hr : r.Fit ok) : Returns ok (method r) (·.Fits ok) := by
  refine (returns_expectName _).bind fun name hname =>
    (returns_acceptSymbol _).bind fun isGetter _ => ?_
  have hgiven : ∀ token, some name = some token → ok token ∧ token.isIdentifier = true :=
    fun _ htoken => Option.some_inj.1 htoken ▸ hname
  split
  · exact (returns_inFunction (returns_block hr)).bind fun body hbody =>
      returns_pure _ (fits_function hgiven (by simp) hbody fun _ => rfl)
  · exact (returns_expectSymbol _ _).bind fun _ _ => returns_functionRest hr hgiven _

theorem returns_usedTraitsFrom (bound : Nat) :
    Returns ok (usedTraitsFrom bound) fun used => ∀ e ∈ used, e.Fits ok := by
  induction bound with
  | zero =>
      refine (returns_expectName _).bind fun name hname => returns_freshId.bind fun id _ =>
        returns_pure _ ?_
      exact List.forall_mem_singleton.2 (fits_leaf hname rfl)
  | succ bound ih =>
      refine (returns_expectName _).bind fun name hname => returns_freshId.bind fun id _ =>
        (returns_acceptSymbol _).bind fun more _ => ?_
      split
      · exact ih.bind fun used hused =>
          returns_pure _ (List.forall_mem_cons.2 ⟨fits_leaf hname rfl, hused⟩)
      · exact returns_pure _ (List.forall_mem_singleton.2 (fits_leaf hname rfl))

theorem fits_body {traits : List Expr} {methods classMethods : List FunctionDecl} :
    ClassBody.Fits ok ⟨traits, methods, classMethods⟩ ↔
      (∀ e ∈ traits, e.Fits ok) ∧ (∀ decl ∈ methods, decl.Fits ok) ∧
        ∀ decl ∈ classMethods, decl.Fits ok := by
  rw [ClassBody.Fits, Node.all_iff]
  simp only [Node.Fits, Node.children, List.forall_mem_append, List.forall_mem_map,
    true_and, and_assoc]
  rfl

theorem returns_membersFrom (hr : r.Fit ok) (bound : Nat) {body : ClassBody}
    (hbody : body.Fits ok) :
    Returns ok (membersFrom r bound body) (·.Fits ok) := by
  induction bound generalizing body with
  | zero => exact returns_pure body hbody
  | succ bound ih =>
      obtain ⟨traits, methods, classMethods⟩ := body
      obtain ⟨htraits, hmethods, hclassMethods⟩ := fits_body.1 hbody
      refine (returns_check _).bind fun closing _ => returns_atEnd.bind fun ended _ => ?_
      split
      · exact returns_pure _ hbody
      · refine (returns_acceptKeyword _).bind fun isUse _ => ?_
        split
        · refine returns_remaining.bind fun left _ => (returns_usedTraitsFrom left).bind
            fun used hused => (returns_expectSymbol _ _).bind fun _ _ => ?_
          exact ih
            (fits_body.2 ⟨List.forall_mem_append.2 ⟨htraits, hused⟩, hmethods, hclassMethods⟩)
        · refine (returns_acceptKeyword _).bind fun isClass _ => ?_
          split
          · refine (returns_method hr).bind fun decl hdecl =>
              ih (fits_body.2 ⟨htraits, hmethods, ?_⟩)
            exact List.forall_mem_append.2 ⟨hclassMethods, List.forall_mem_singleton.2 hdecl⟩
          · refine (returns_method hr).bind fun decl hdecl =>
              ih (fits_body.2 ⟨htraits, ?_, hclassMethods⟩)
            exact List.forall_mem_append.2 ⟨hmethods, List.forall_mem_singleton.2 hdecl⟩

theorem returns_classBody (hr : r.Fit ok) (before after : Position) :
    Returns ok (classBody r before after) (·.Fits ok) :=
  (returns_expectSymbol _ _).bind fun _ _ => returns_remaining.bind fun bound _ =>
    (returns_membersFrom hr bound (fits_body.2 ⟨by simp, by simp, by simp⟩)).bind fun body hbody =>
      (returns_expectSymbol _ _).bind fun _ _ => returns_pure body hbody

theorem returns_superclass :
    Returns ok superclass fun parent => ∀ e, parent = some e → e.Fits ok := by
  refine (returns_acceptSymbol _).bind fun given _ => ?_
  split
  · refine (returns_expectName _).bind fun name hname => returns_freshId.bind fun id _ =>
      returns_pure _ fun e he => ?_
    exact Option.some_inj.1 he ▸ fits_leaf hname rfl
  · exact returns_pure none nofun

theorem returns_classDeclaration (hr : r.Fit ok) : Returns ok (classDeclaration r) (·.Fits ok) :=
  (returns_expectName _).bind fun _ hname => returns_superclass.bind fun _ hparent =>
    (returns_classBody hr _ _).bind fun _ hbody =>
    returns_pure _ (Node.all_iff.2 ⟨hname, List.forall_mem_cons.2 ⟨hbody, fits_option hparent⟩⟩)

theorem returns_traitDeclaration (hr : r.Fit ok) : Returns ok (traitDeclaration r) (·.Fits ok) :=
  (returns_expectName _).bind fun _ hname => (returns_classBody hr _ _).bind fun _ hbody =>
    returns_pure _ (Node.all_iff.2 ⟨hname, List.forall_mem_singleton.2 hbody⟩)

theorem returns_functionDeclaration (hr : r.Fit ok) :
    Returns ok (functionDeclaration r) (·.Fits ok) := by
  refine (returns_expectName _).bind fun name hname => (returns_expectSymbol _ _).bind fun _ _ => ?_
  refine (returns_functionRest hr (fun _ htoken => Option.some_inj.1 htoken ▸ hname) _).bind
    fun decl hdecl => ?_
  exact returns_pure _ (Node.all_iff.2 ⟨trivial, List.forall_mem_singleton.2 hdecl⟩)

theorem returns_declarationRule (hr : r.Fit ok) : Returns ok (declarationRule r) (·.Fits ok) := by
  refine (returns_acceptKeyword _).bind fun isClass _ => ?_
  split
  · exact returns_classDeclaration hr
  · refine (returns_acceptKeyword _).bind fun isTrait _ => ?_
    split
    · exact returns_traitDeclaration hr
    · refine returns_startsFunction.bind fun isFunction _ => ?_
      split
      · exact (returns_accept _).bind fun _ _ => returns_functionDeclaration hr
      · refine (returns_acceptKeyword _).bind fun isVariable _ => ?_
        split
        · exact returns_variableDeclaration hr
        · exact returns_statement hr

/-! ### All rules and whole programs -/

theorem returns_recovering {x : Parser α} {Q : α → Prop} (h : Returns ok x Q) :
    Returns ok (recovering x) fun found => ∀ a, found = some a → Q a :=
  ⟨fun loops s => reads_recovering (h.reads loops s)⟩

theorem fit_rules (ok : Token → Prop) (depth : Nat) : (rules depth).Fit ok := by
  induction depth with
  | zero =>
      exact ⟨returns_fail _, returns_fail _, returns_fail _, returns_fail _, returns_fail _,
        returns_fail _, returns_fail _, returns_fail _,
        returns_recovering (returns_fail _)⟩
  | succ depth ih =>
      exact ⟨returns_expression ih, returns_assignment ih, returns_conditional ih,
        returns_comparison ih, returns_term ih, returns_factor ih,
        returns_unary ih, returns_statement ih, returns_recovering (returns_declarationRule ih)⟩

theorem returns_declarationsFrom (hr : r.Fit ok) (bound : Nat) :
    Returns ok (declarationsFrom r bound) fun statements => ∀ stmt ∈ statements, stmt.Fits ok := by
  induction bound with
  | zero => exact returns_pure [] (by simp)
  | succ bound ih =>
      refine returns_atEnd.bind fun ended _ => ?_
      split
      · exact returns_pure [] (by simp)
      · refine hr.declaration.bind fun found hfound => ?_
        cases found with
        | none => exact ih
        | some stmt =>
          exact ih.bind fun statements hstatements =>
            returns_pure _ (List.forall_mem_cons.2 ⟨hfound stmt rfl, hstatements⟩)

theorem returns_loneExpression (ok : Token → Prop) (tokens : Nat) :
    Returns ok (loneExpression tokens) (·.Fits ok) := by
  refine (fit_rules ok _).expression.bind fun e he => returns_atEnd.bind fun ended _ => ?_
  split
  · exact returns_pure e he
  · exact returns_fail _

end Parse

open Parse

variable {ok : Token → Prop} {scanned : Scanned}

/-- A condition that all tokens satisfy is one on the tokens of the statements that are read from
them. -/
theorem parseProgram_fits (htokens : ∀ token ∈ scanned.tokens, ok token) (hlast : ok scanned.last)
    (firstId : Nat) :
    ∀ stmt ∈ (parseProgram scanned firstId).value, stmt.Fits ok := by
  have hread :=
    (returns_declarationsFrom (fit_rules ok (scanned.tokens.length + 1))
      scanned.tokens.length).reads [0] (.initial scanned firstId)
    ⟨htokens, hlast, rfl⟩
  unfold parseProgram program
  split at hread
  next heq =>
    rw [heq]
    exact hread.2.2
  next heq =>
    rw [heq]
    simp

theorem parseExpression_fits (htokens : ∀ token ∈ scanned.tokens, ok token)
    (hlast : ok scanned.last) (firstId : Nat) :
    ∀ expr, (parseExpression scanned firstId).value = some expr → expr.Fits ok := by
  have hread := (returns_loneExpression ok scanned.tokens.length).reads [0]
    (.initial scanned firstId) ⟨htokens, hlast, rfl⟩
  unfold parseExpression
  split at hread
  next heq =>
    rw [heq]
    exact fun expr hexpr => Option.some_inj.1 hexpr ▸ hread.2.2
  next heq =>
    rw [heq]
    exact nofun

end TraitScript
