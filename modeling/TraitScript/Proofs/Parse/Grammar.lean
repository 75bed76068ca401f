import TraitScript.Parse.Program

/-!
# The grammar

Which lists of tokens are programs, and the tree that each of them stands for, as a system of
derivation rules. A rule of the form `operand (operator operand)*` stands for a tree that leans to
the left; assignments and conditionals lean to the right. An `else` belongs to the nearest `if` that
is still open, targets of assignments are variables and properties, lists of parameters and
arguments have at most 255 entries, and a jump stands in the body of a loop of its own function.
Derived trees have no ids: all of them are zero.
-/

namespace TraitScript

theorem Token.isSymbol_iff {token : Token} {symbol : Symbol} :
    token.isSymbol symbol = true ↔ token.kind = .symbol symbol := by
  unfold Token.isSymbol
  cases token.kind <;> simp

theorem Token.isKeyword_iff {token : Token} {keyword : Keyword} :
    token.isKeyword keyword = true ↔ token.kind = .keyword keyword := by
  unfold Token.isKeyword
  cases token.kind <;> simp

theorem Token.isIdentifier_iff {token : Token} :
    token.isIdentifier = true ↔ token.kind = .identifier := by
  unfold Token.isIdentifier
  cases token.kind <;> simp

/-! ### Trees without ids -/

mutual

/-- An expression with all ids set to zero. -/
def Expr.withoutIds : Expr → Expr
  | .literal value => .literal value
  | .group inner => .group inner.withoutIds
  | .unary operator right => .unary operator right.withoutIds
  | .binary left operator right => .binary left.withoutIds operator right.withoutIds
  | .logical left operator right => .logical left.withoutIds operator right.withoutIds
  | .conditional condition thenBranch elseBranch =>
    .conditional condition.withoutIds thenBranch.withoutIds elseBranch.withoutIds
  | .variable _ name => .variable 0 name
  | .assign _ name value => .assign 0 name value.withoutIds
  | .call callee paren arguments => .call callee.withoutIds paren (Expr.withoutIdsAll arguments)
  | .function decl => .function decl.withoutIds
  | .get object name => .get object.withoutIds name
  | .set object name value => .set object.withoutIds name value.withoutIds
  | .this _ keyword => .this 0 keyword
  | .super _ keyword method => .super 0 keyword method

def Expr.withoutIdsAll : List Expr → List Expr
  | [] => []
  | first :: rest => first.withoutIds :: Expr.withoutIdsAll rest

def Expr.withoutIds? : Option Expr → Option Expr
  | none => none
  | some expr => some expr.withoutIds

def FunctionDecl.withoutIds : FunctionDecl → FunctionDecl
  | ⟨name, params, body, isGetter⟩ => ⟨name, params, Stmt.withoutIdsAll body, isGetter⟩

def FunctionDecl.withoutIdsAll : List FunctionDecl → List FunctionDecl
  | [] => []
  | first :: rest => first.withoutIds :: FunctionDecl.withoutIdsAll rest

def ClassBody.withoutIds : ClassBody → ClassBody
  | ⟨traits, methods, classMethods⟩ =>
    ⟨Expr.withoutIdsAll traits, FunctionDecl.withoutIdsAll methods,
      FunctionDecl.withoutIdsAll classMethods⟩

def Stmt.withoutIds : Stmt → Stmt
  | .expression value => .expression value.withoutIds
  | .print value => .print value.withoutIds
  | .variable name initial => .variable name (Expr.withoutIds? initial)
  | .block statements => .block (Stmt.withoutIdsAll statements)
  | .ifElse condition thenBranch elseBranch =>
    .ifElse condition.withoutIds thenBranch.withoutIds (Stmt.withoutIds? elseBranch)
  | .whileLoop condition body => .whileLoop condition.withoutIds body.withoutIds
  | .forLoop initial condition increment body =>
    .forLoop (Stmt.withoutIds? initial) (Expr.withoutIds? condition) (Expr.withoutIds? increment)
      body.withoutIds
  | .jump keyword kind => .jump keyword kind
  | .function decl => .function decl.withoutIds
  | .returnValue keyword value => .returnValue keyword (Expr.withoutIds? value)
  | .classDecl name superclass body => .classDecl name (Expr.withoutIds? superclass) body.withoutIds
  | .traitDecl name body => .traitDecl name body.withoutIds

def Stmt.withoutIdsAll : List Stmt → List Stmt
  | [] => []
  | first :: rest => first.withoutIds :: Stmt.withoutIdsAll rest

def Stmt.withoutIds? : Option Stmt → Option Stmt
  | none => none
  | some stmt => some stmt.withoutIds

end

attribute [simp] Expr.withoutIds Expr.withoutIdsAll Expr.withoutIds? FunctionDecl.withoutIds
  FunctionDecl.withoutIdsAll
  ClassBody.withoutIds Stmt.withoutIds Stmt.withoutIdsAll Stmt.withoutIds?

@[simp] theorem Expr.withoutIdsAll_append (first second : List Expr) :
    Expr.withoutIdsAll (first ++ second) =
      Expr.withoutIdsAll first ++ Expr.withoutIdsAll second := by
  induction first with
  | nil => rfl
  | cons expr rest ih => simp [ih]

@[simp] theorem FunctionDecl.withoutIdsAll_append (first second : List FunctionDecl) :
    FunctionDecl.withoutIdsAll (first ++ second) =
      FunctionDecl.withoutIdsAll first ++ FunctionDecl.withoutIdsAll second := by
  induction first with
  | nil => rfl
  | cons decl rest ih => simp [ih]

/-- Whether a statement ends with an `if` that could still take an `else`. -/
def Stmt.endsOpen : Stmt → Bool
  | .ifElse _ _ none => true
  | .ifElse _ _ (some elseBranch) => elseBranch.endsOpen
  | .whileLoop _ body => body.endsOpen
  | .forLoop _ _ _ body => body.endsOpen
  | _ => false

namespace Grammar

/-! ### Phrases -/

/-- The rules for expressions, from the tightest to the loosest. -/
inductive Rank where
  | primary
  | call
  | unary
  | factor
  | term
  | comparison
  | equality
  | logicalAnd
  | logicalOr
  | conditional
  | assignment
  | comma
  deriving DecidableEq, Repr

/-- The rules of the form `operand (operator operand)*`. -/
inductive Level where
  | factor
  | term
  | comparison
  | equality
  | logicalAnd
  | logicalOr
  | comma
  deriving DecidableEq, Repr

namespace Level

def rank : Level → Rank
  | factor => .factor
  | term => .term
  | comparison => .comparison
  | equality => .equality
  | logicalAnd => .logicalAnd
  | logicalOr => .logicalOr
  | comma => .comma

def operand : Level → Rank
  | factor => .unary
  | term => .factor
  | comparison => .term
  | equality => .comparison
  | logicalAnd => .equality
  | logicalOr => .logicalAnd
  | comma => .assignment

def isOperator : Level → Token.Kind → Bool
  | factor, .symbol .slash | factor, .symbol .star => true
  | term, .symbol .minus | term, .symbol .plus => true
  | comparison, .symbol .greater | comparison, .symbol .greaterEqual | comparison, .symbol .less
  | comparison, .symbol .lessEqual => true
  | equality, .symbol .bangEqual | equality, .symbol .equalEqual => true
  | logicalAnd, .keyword .andWord => true
  | logicalOr, .keyword .orWord => true
  | comma, .symbol .comma => true
  | _, _ => false

def node : Level → Expr → Token → Expr → Expr
  | logicalAnd | logicalOr => .logical
  | factor | term | comparison | equality | comma => .binary

end Level

/-- What can be derived from tokens. -/
inductive Part where
  | expr (rank : Rank)
  /-- `(operator operand)*` after what has been read. -/
  | operators (level : Level) (left : Expr)
  /-- `("(" arguments? ")" | "." IDENT)*` after what has been read. -/
  | accesses (left : Expr)
  | argumentList
  /-- `arguments?` -/
  | arguments
  /-- `expression?` -/
  | optional
  | block (inLoop : Bool)
  /-- `"(" parameters? ")" block` after a name or `fun`. -/
  | function (name : Option Token)
  | method
  /-- `member*` -/
  | members
  | classBody
  | varDecl
  | forInitial
  | statement (inLoop : Bool)
  | declaration (inLoop : Bool)
  /-- `declaration*` -/
  | declarations (inLoop : Bool)

/-- The trees of a part. -/
@[reducible] def Part.Tree : Part → Type
  | expr _ | operators _ _ | accesses _ => Expr
  | argumentList | arguments => List Expr
  | optional => Option Expr
  | block _ | declarations _ => List Stmt
  | function _ | method => FunctionDecl
  | members | classBody => ClassBody
  | varDecl | statement _ | declaration _ => Stmt
  | forInitial => Option Stmt

/-- `IDENT ("," IDENT)*` -/
inductive Names : List Token → List Token → Prop
  | one {name : Token} (hname : name.isIdentifier) : Names [name] [name]
  | more {name comma : Token} {ts names : List Token} (hname : name.isIdentifier)
      (hcomma : comma.isSymbol .comma)
      (hrest : Names ts names) : Names (name :: comma :: ts) (name :: names)

/-- `parameters?` -/
inductive Parameters : List Token → List Token → Prop
  | none : Parameters [] []
  | some {ts names : List Token} (hnames : Names ts names) (hlength : names.length ≤ 255) :
      Parameters ts names

/-- `("<" IDENT)?` -/
inductive Superclass : List Token → Option Expr → Prop
  | none : Superclass [] none
  | some {less name : Token} (hless : less.isSymbol .less) (hname : name.isIdentifier) :
      Superclass [less, name] (some (.variable 0 name))

/-- Constants and names of one token. -/
inductive Atom : Token → Expr → Prop
  | number {token : Token} {value : Float} (hkind : token.kind = .number value) :
      Atom token (.literal (.number value))
  | string {token : Token} {contents : String} (hkind : token.kind = .string contents) :
      Atom token (.literal (.string contents))
  | trueWord {token : Token} (hkind : token.isKeyword .trueWord) :
      Atom token (.literal (.bool true))
  | falseWord {token : Token} (hkind : token.isKeyword .falseWord) :
      Atom token (.literal (.bool false))
  | nilWord {token : Token} (hkind : token.isKeyword .nilWord) : Atom token (.literal .nil)
  | thisWord {token : Token} (hkind : token.isKeyword .thisWord) : Atom token (.this 0 token)
  | identifier {token : Token} (hkind : token.isIdentifier) : Atom token (.variable 0 token)

/-- Which keyword makes which jump. -/
def jumpKeyword : Jump → Keyword
  | .breakLoop => .breakWord
  | .continueLoop => .continueWord

/-! ### Derivations -/

/-- The tokens form a part of a program with a tree. -/
inductive Derives : (part : Part) → List Token → part.Tree → Prop
  -- expressions
  | level {level : Level} {ts us : List Token} {left e : Expr}
      (hleft : Derives (.expr level.operand) ts left)
      (hrest : Derives (.operators level left) us e) : Derives (.expr level.rank) (ts ++ us) e
  | noOperator {level : Level} {left : Expr} : Derives (.operators level left) [] left
  | operator {level : Level} {left right e : Expr} {token : Token} {ts us : List Token}
      (htoken : level.isOperator token.kind)
      (hright : Derives (.expr level.operand) ts right)
      (hrest : Derives (.operators level (level.node left token right)) us e) :
      Derives (.operators level left) (token :: (ts ++ us)) e
  | noAssignment {ts : List Token} {e : Expr} (h : Derives (.expr .conditional) ts e) :
      Derives (.expr .assignment) ts e
  | assignVariable {ts us : List Token} {name equals : Token} {value : Expr}
      (htarget : Derives (.expr .conditional) ts (.variable 0 name))
      (hequals : equals.isSymbol .equal) (hvalue : Derives (.expr .assignment) us value) :
      Derives (.expr .assignment) (ts ++ equals :: us) (.assign 0 name value)
  | assignProperty {ts us : List Token} {name equals : Token} {object value : Expr}
      (htarget : Derives (.expr .conditional) ts (.get object name))
      (hequals : equals.isSymbol .equal)
      (hvalue : Derives (.expr .assignment) us value) :
      Derives (.expr .assignment) (ts ++ equals :: us) (.set object name value)
  | noConditional {ts : List Token} {e : Expr} (h : Derives (.expr .logicalOr) ts e) :
      Derives (.expr .conditional) ts e
  | conditional {ts us vs : List Token} {question colon : Token}
      {condition thenBranch elseBranch : Expr}
      (hcondition : Derives (.expr .logicalOr) ts condition)
      (hquestion : question.isSymbol .question)
      (hthen : Derives (.expr .comma) us thenBranch) (hcolon : colon.isSymbol .colon)
      (helse : Derives (.expr .conditional) vs elseBranch) :
      Derives (.expr .conditional) (ts ++ question :: (us ++ colon :: vs))
        (.conditional condition thenBranch elseBranch)
  | noUnary {ts : List Token} {e : Expr} (h : Derives (.expr .call) ts e) :
      Derives (.expr .unary) ts e
  | unary {token : Token} {ts : List Token} {right : Expr}
      (htoken : token.isSymbol .bang ∨ token.isSymbol .minus)
      (hright : Derives (.expr .unary) ts right) :
      Derives (.expr .unary) (token :: ts) (.unary token right)
  | call {ts us : List Token} {e e' : Expr} (h : Derives (.expr .primary) ts e)
      (hrest : Derives (.accesses e) us e') :
      Derives (.expr .call) (ts ++ us) e'
  | noAccess {e : Expr} : Derives (.accesses e) [] e
  | arguments {e e' : Expr} {opening closing : Token} {ts us : List Token} {args : List Expr}
      (hopening : opening.isSymbol .leftParen)
      (hargs : Derives .arguments ts args) (hclosing : closing.isSymbol .rightParen)
      (hrest : Derives (.accesses (.call e closing args)) us e') :
      Derives (.accesses e) (opening :: (ts ++ closing :: us)) e'
  | property {e e' : Expr} {dot name : Token} {us : List Token} (hdot : dot.isSymbol .dot)
      (hname : name.isIdentifier)
      (hrest : Derives (.accesses (.get e name)) us e') :
      Derives (.accesses e) (dot :: name :: us) e'
  | noArguments : Derives .arguments [] []
  | someArguments {ts : List Token} {args : List Expr} (h : Derives .argumentList ts args)
      (hlength : args.length ≤ 255) :
      Derives .arguments ts args
  | lastArgument {ts : List Token} {e : Expr} (h : Derives (.expr .assignment) ts e) :
      Derives .argumentList ts [e]
  | moreArguments {ts us : List Token} {comma : Token} {e : Expr} {args : List Expr}
      (h : Derives (.expr .assignment) ts e)
      (hcomma : comma.isSymbol .comma) (hrest : Derives .argumentList us args) :
      Derives .argumentList (ts ++ comma :: us) (e :: args)
  | atom {token : Token} {e : Expr} (h : Atom token e) : Derives (.expr .primary) [token] e
  | group {opening closing : Token} {ts : List Token} {e : Expr}
      (hopening : opening.isSymbol .leftParen)
      (h : Derives (.expr .comma) ts e) (hclosing : closing.isSymbol .rightParen) :
      Derives (.expr .primary) (opening :: (ts ++ [closing])) (.group e)
  | superMethod {word dot name : Token} (hword : word.isKeyword .superWord)
      (hdot : dot.isSymbol .dot) (hname : name.isIdentifier) :
      Derives (.expr .primary) [word, dot, name] (.super 0 word name)
  | functionExpr {word : Token} {ts : List Token} {decl : FunctionDecl}
      (hword : word.isKeyword .funWord)
      (h : Derives (.function none) ts decl) :
      Derives (.expr .primary) (word :: ts) (.function decl)
  | noExpression : Derives .optional [] none
  | someExpression {ts : List Token} {e : Expr} (h : Derives (.expr .comma) ts e) :
      Derives .optional ts (some e)
  -- functions and blocks
  | function {name : Option Token} {opening closing : Token} {ts us params : List Token}
      {body : List Stmt}
      (hopening : opening.isSymbol .leftParen) (hparams : Parameters ts params)
      (hclosing : closing.isSymbol .rightParen)
      (hbody : Derives (.block false) us body) :
      Derives (.function name) (opening :: (ts ++ closing :: us)) ⟨name, params, body, false⟩
  | block {inLoop : Bool} {opening closing : Token} {ts : List Token} {statements : List Stmt}
      (hopening : opening.isSymbol .leftBrace)
      (h : Derives (.declarations inLoop) ts statements) (hclosing : closing.isSymbol .rightBrace) :
      Derives (.block inLoop) (opening :: (ts ++ [closing])) statements
  -- classes and traits
  | getter {name : Token} {ts : List Token} {body : List Stmt} (hname : name.isIdentifier)
      (hbody : Derives (.block false) ts body) :
      Derives .method (name :: ts) ⟨some name, [], body, true⟩
  | method {name : Token} {ts : List Token} {decl : FunctionDecl} (hname : name.isIdentifier)
      (h : Derives (.function (some name)) ts decl) :
      Derives .method (name :: ts) decl
  | noMember : Derives .members [] ⟨[], [], []⟩
  | useMember {word semicolon : Token} {ts us names : List Token} {traits : List Expr}
      {methods classMethods : List FunctionDecl}
      (hword : word.isKeyword .useWord) (hnames : Names ts names)
      (hsemicolon : semicolon.isSymbol .semicolon)
      (hrest : Derives .members us ⟨traits, methods, classMethods⟩) :
      Derives .members (word :: (ts ++ semicolon :: us))
        ⟨names.map (.variable 0) ++ traits, methods, classMethods⟩
  | classMember {word : Token} {ts us : List Token} {decl : FunctionDecl} {traits : List Expr}
      {methods classMethods : List FunctionDecl}
      (hword : word.isKeyword .classWord) (h : Derives .method ts decl)
      (hrest : Derives .members us ⟨traits, methods, classMethods⟩) :
      Derives .members (word :: (ts ++ us)) ⟨traits, methods, decl :: classMethods⟩
  | instanceMember {ts us : List Token} {decl : FunctionDecl} {traits : List Expr}
      {methods classMethods : List FunctionDecl}
      (h : Derives .method ts decl) (hrest : Derives .members us ⟨traits, methods, classMethods⟩) :
      Derives .members (ts ++ us) ⟨traits, decl :: methods, classMethods⟩
  | classBody {opening closing : Token} {ts : List Token} {body : ClassBody}
      (hopening : opening.isSymbol .leftBrace)
      (h : Derives .members ts body) (hclosing : closing.isSymbol .rightBrace) :
      Derives .classBody (opening :: (ts ++ [closing])) body
  -- statements
  | exprStmt {inLoop : Bool} {ts : List Token} {semicolon : Token} {e : Expr}
      (h : Derives (.expr .comma) ts e)
      (hsemicolon : semicolon.isSymbol .semicolon) :
      Derives (.statement inLoop) (ts ++ [semicolon]) (.expression e)
  | printStmt {inLoop : Bool} {word semicolon : Token} {ts : List Token} {e : Expr}
      (hword : word.isKeyword .printWord)
      (h : Derives (.expr .comma) ts e) (hsemicolon : semicolon.isSymbol .semicolon) :
      Derives (.statement inLoop) (word :: (ts ++ [semicolon])) (.print e)
  | ifStmt {inLoop : Bool} {word opening closing : Token} {ts us : List Token} {condition : Expr}
      {thenBranch : Stmt}
      (hword : word.isKeyword .ifWord) (hopening : opening.isSymbol .leftParen)
      (hcondition : Derives (.expr .comma) ts condition)
      (hclosing : closing.isSymbol .rightParen)
      (hthen : Derives (.statement inLoop) us thenBranch) :
      Derives (.statement inLoop) (word :: opening :: (ts ++ closing :: us))
        (.ifElse condition thenBranch none)
  | ifElseStmt {inLoop : Bool} {word opening closing elseWord : Token} {ts us vs : List Token}
      {condition : Expr}
      {thenBranch elseBranch : Stmt} (hword : word.isKeyword .ifWord)
      (hopening : opening.isSymbol .leftParen)
      (hcondition : Derives (.expr .comma) ts condition) (hclosing : closing.isSymbol .rightParen)
      (hthen : Derives (.statement inLoop) us thenBranch) (hnearest : thenBranch.endsOpen = false)
      (helse : elseWord.isKeyword .elseWord)
      (helseBranch : Derives (.statement inLoop) vs elseBranch) :
      Derives (.statement inLoop) (word :: opening :: (ts ++ closing :: (us ++ elseWord :: vs)))
        (.ifElse condition thenBranch (some elseBranch))
  | whileStmt {inLoop : Bool} {word opening closing : Token} {ts us : List Token}
      {condition : Expr} {body : Stmt}
      (hword : word.isKeyword .whileWord) (hopening : opening.isSymbol .leftParen)
      (hcondition : Derives (.expr .comma) ts condition)
      (hclosing : closing.isSymbol .rightParen) (hbody : Derives (.statement true) us body) :
      Derives (.statement inLoop) (word :: opening :: (ts ++ closing :: us))
        (.whileLoop condition body)
  | forStmt {inLoop : Bool} {word opening semicolon closing : Token} {ts us vs ws : List Token}
      {initial : Option Stmt}
      {condition increment : Option Expr} {body : Stmt} (hword : word.isKeyword .forWord)
      (hopening : opening.isSymbol .leftParen)
      (hinitial : Derives .forInitial ts initial) (hcondition : Derives .optional us condition)
      (hsemicolon : semicolon.isSymbol .semicolon) (hincrement : Derives .optional vs increment)
      (hclosing : closing.isSymbol .rightParen) (hbody : Derives (.statement true) ws body) :
      Derives (.statement inLoop)
        (word :: opening :: (ts ++ (us ++ semicolon :: (vs ++ closing :: ws))))
        (.forLoop initial condition increment body)
  | noInitial {semicolon : Token} (hsemicolon : semicolon.isSymbol .semicolon) :
      Derives .forInitial [semicolon] none
  | varInitial {ts : List Token} {stmt : Stmt} (h : Derives .varDecl ts stmt) :
      Derives .forInitial ts (some stmt)
  | exprInitial {ts : List Token} {semicolon : Token} {e : Expr} (h : Derives (.expr .comma) ts e)
      (hsemicolon : semicolon.isSymbol .semicolon) :
      Derives .forInitial (ts ++ [semicolon]) (some (.expression e))
  | returnStmt {inLoop : Bool} {word semicolon : Token} {ts : List Token} {value : Option Expr}
      (hword : word.isKeyword .returnWord)
      (hvalue : Derives .optional ts value) (hsemicolon : semicolon.isSymbol .semicolon) :
      Derives (.statement inLoop) (word :: (ts ++ [semicolon])) (.returnValue word value)
  | jumpStmt {word semicolon : Token} {kind : Jump} (hword : word.isKeyword (jumpKeyword kind))
      (hsemicolon : semicolon.isSymbol .semicolon) :
      Derives (.statement true) [word, semicolon] (.jump word kind)
  | blockStmt {inLoop : Bool} {ts : List Token} {statements : List Stmt}
      (h : Derives (.block inLoop) ts statements) :
      Derives (.statement inLoop) ts (.block statements)
  -- declarations
  | varDecl {word name semicolon : Token} (hword : word.isKeyword .varWord)
      (hname : name.isIdentifier)
      (hsemicolon : semicolon.isSymbol .semicolon) :
      Derives .varDecl [word, name, semicolon] (.variable name none)
  | varDeclValue {word name equals semicolon : Token} {ts : List Token} {value : Expr}
      (hword : word.isKeyword .varWord)
      (hname : name.isIdentifier) (hequals : equals.isSymbol .equal)
      (hvalue : Derives (.expr .comma) ts value)
      (hsemicolon : semicolon.isSymbol .semicolon) :
      Derives .varDecl (word :: name :: equals :: (ts ++ [semicolon])) (.variable name (some value))
  | classDecl {inLoop : Bool} {word name : Token} {ts us : List Token} {parent : Option Expr}
      {body : ClassBody}
      (hword : word.isKeyword .classWord) (hname : name.isIdentifier)
      (hparent : Superclass ts parent) (hbody : Derives .classBody us body) :
      Derives (.declaration inLoop) (word :: name :: (ts ++ us)) (.classDecl name parent body)
  | traitDecl {inLoop : Bool} {word name : Token} {ts : List Token} {body : ClassBody}
      (hword : word.isKeyword .traitWord)
      (hname : name.isIdentifier) (hbody : Derives .classBody ts body) :
      Derives (.declaration inLoop) (word :: name :: ts) (.traitDecl name body)
  | funDecl {inLoop : Bool} {word name : Token} {ts : List Token} {decl : FunctionDecl}
      (hword : word.isKeyword .funWord)
      (hname : name.isIdentifier) (h : Derives (.function (some name)) ts decl) :
      Derives (.declaration inLoop) (word :: name :: ts) (.function decl)
  | varDeclaration {inLoop : Bool} {ts : List Token} {stmt : Stmt} (h : Derives .varDecl ts stmt) :
      Derives (.declaration inLoop) ts stmt
  | statement {inLoop : Bool} {ts : List Token} {stmt : Stmt}
      (h : Derives (.statement inLoop) ts stmt) :
      Derives (.declaration inLoop) ts stmt
  | noDeclaration {inLoop : Bool} : Derives (.declarations inLoop) [] []
  | moreDeclarations {inLoop : Bool} {ts us : List Token} {stmt : Stmt} {rest : List Stmt}
      (h : Derives (.declaration inLoop) ts stmt)
      (hrest : Derives (.declarations inLoop) us rest) :
      Derives (.declarations inLoop) (ts ++ us) (stmt :: rest)

/-- The tokens before the end of a source form a program with a tree. -/
def Program (tokens : List Token) (statements : List Stmt) : Prop :=
  Derives (.declarations false) tokens statements

/-! ### First tokens -/

def startsPrimary : Token.Kind → Bool
  | .number _ | .string _ | .identifier | .symbol .leftParen | .keyword .trueWord
  | .keyword .falseWord | .keyword .nilWord | .keyword .thisWord | .keyword .superWord
  | .keyword .funWord => true
  | _ => false

def startsExpression (kind : Token.Kind) : Bool :=
  startsPrimary kind || kind == .symbol .bang || kind == .symbol .minus

def startsStatement (kind : Token.Kind) : Bool :=
  startsExpression kind || match kind with
    | .symbol .leftBrace | .keyword .printWord | .keyword .ifWord | .keyword .whileWord
    | .keyword .forWord | .keyword .returnWord | .keyword .breakWord
    | .keyword .continueWord => true
    | _ => false

/-- The first token passes a test, and a first `fun` is followed by a parenthesis. -/
def Opens (test : Token.Kind → Bool) : List Token → Prop
  | [] => False
  | token :: us =>
    test token.kind = true ∧
      (token.kind = .keyword .funWord → ∃ next, us.head? = some next ∧
        next.kind = .symbol .leftParen)

theorem Opens.append {test : Token.Kind → Bool} {ts : List Token} (h : Opens test ts)
    (us : List Token) : Opens test (ts ++ us) := by
  cases ts with
  | nil => exact h.elim
  | cons token ts =>
      refine ⟨h.1, fun hfun => ?_⟩
      obtain ⟨next, hnext, hkind⟩ := h.2 hfun
      exact ⟨next, by simp [List.head?_append, hnext], hkind⟩

theorem Opens.mono {test test' : Token.Kind → Bool} {ts : List Token} (h : Opens test ts)
    (himp : ∀ kind, test kind = true → test' kind = true) :
    Opens test' ts := by
  cases ts with
  | nil => exact h
  | cons token ts => exact ⟨himp _ h.1, h.2⟩

theorem opens_of_ne_fun {test : Token.Kind → Bool} {token : Token} (us : List Token)
    (htest : test token.kind = true) (hfun : token.kind ≠ .keyword .funWord) :
    Opens test (token :: us) := ⟨htest, fun h => (hfun h).elim⟩

/-- The first token is of a kind. -/
def StartsWith (kind : Token.Kind) (ts : List Token) : Prop :=
  ∃ token us, ts = token :: us ∧ token.kind = kind

/-- What is known of the first tokens of a part. -/
def Heads : Part → List Token → Prop
  | .expr .primary, ts | .expr .call, ts => Opens startsPrimary ts
  | .expr _, ts | .argumentList, ts => Opens startsExpression ts
  | .operators level _, ts => ∀ token, ts.head? = some token → level.isOperator token.kind = true
  | .accesses _, ts =>
    ∀ token, ts.head? = some token → token.kind = .symbol .leftParen ∨ token.kind = .symbol .dot
  | .function _, ts => StartsWith (.symbol .leftParen) ts
  | .block _, ts | .classBody, ts => StartsWith (.symbol .leftBrace) ts
  | .method, ts => StartsWith .identifier ts
  | .varDecl, ts => StartsWith (.keyword .varWord) ts
  | .statement _, ts => Opens startsStatement ts
  | .declaration _, ts => ∃ token us, ts = token :: us ∧
      (startsStatement token.kind = true ∨ token.kind ∈ [.keyword .classWord, .keyword .traitWord,
        .keyword .varWord])
  | .declarations _, ts => ∀ token, ts.head? = some token →
      startsStatement token.kind = true ∨ token.kind ∈ [.keyword .classWord, .keyword .traitWord,
        .keyword .varWord]
  | _, _ => True

theorem heads_of_rank {rank : Rank} {ts : List Token} (h : Heads (.expr rank) ts) :
    Opens startsExpression ts := by
  have himp : ∀ kind, startsPrimary kind = true → startsExpression kind = true :=
    fun kind hkind => by simp [startsExpression, hkind]
  cases rank with
  | primary | call => exact Opens.mono h himp
  | unary | factor | term | comparison | equality | logicalAnd | logicalOr | conditional
  | assignment | comma => exact h

theorem opens_statement {ts : List Token} (h : Opens startsExpression ts) :
    Opens startsStatement ts :=
  h.mono fun kind hkind => by simp [startsStatement, hkind]

theorem Derives.heads {part : Part} {ts : List Token} {tree : part.Tree}
    (h : Derives part ts tree) : Heads part ts := by
  induction h with
  | @level level ts us _ _ _ _ ih _ =>
      have hopens := (heads_of_rank ih).append us
      cases level <;> exact hopens
  | noAssignment _ ih | noConditional _ ih => exact ih
  | assignVariable _ _ _ ih _ | assignProperty _ _ _ ih _ | conditional _ _ _ _ _ ih _ _ =>
    exact ih.append _
  | noUnary _ ih | lastArgument _ ih => exact heads_of_rank ih
  | unary htoken _ _ =>
      rcases htoken with htoken | htoken
      all_goals
        rw [Token.isSymbol_iff] at htoken
        exact opens_of_ne_fun _ (by simp [htoken, startsExpression]) (by simp [htoken])
  | call _ _ ih _ => exact ih.append _
  | moreArguments _ _ _ ih _ => exact ih.append _
  | atom hatom =>
      cases hatom with
      | number hkind | string hkind =>
        exact opens_of_ne_fun _ (by simp [hkind, startsPrimary]) (by simp [hkind])
      | trueWord hkind | falseWord hkind | nilWord hkind | thisWord hkind =>
          rw [Token.isKeyword_iff] at hkind
          exact opens_of_ne_fun _ (by simp [hkind, startsPrimary]) (by simp [hkind])
      | identifier hkind =>
          rw [Token.isIdentifier_iff] at hkind
          exact opens_of_ne_fun _ (by simp [hkind, startsPrimary]) (by simp [hkind])
  | group hopening _ _ _ =>
      rw [Token.isSymbol_iff] at hopening
      exact opens_of_ne_fun _ (by simp [hopening, startsPrimary]) (by simp [hopening])
  | superMethod hword _ _ =>
      rw [Token.isKeyword_iff] at hword
      exact opens_of_ne_fun _ (by simp [hword, startsPrimary]) (by simp [hword])
  | functionExpr hword _ ih =>
      rw [Token.isKeyword_iff] at hword
      obtain ⟨token, us, rfl, hkind⟩ := ih
      exact ⟨by simp [hword, startsPrimary], fun _ => ⟨token, rfl, hkind⟩⟩
  | function hopening _ _ _ _ => exact ⟨_, _, rfl, Token.isSymbol_iff.1 hopening⟩
  | block hopening _ _ _ | classBody hopening _ _ _ =>
    exact ⟨_, _, rfl, Token.isSymbol_iff.1 hopening⟩
  | getter hname _ _ | method hname _ _ => exact ⟨_, _, rfl, Token.isIdentifier_iff.1 hname⟩
  | exprStmt _ _ ih => exact (opens_statement ih).append _
  | printStmt hword _ _ _ | ifStmt hword _ _ _ _ _ _ | ifElseStmt hword _ _ _ _ _ _ _ _ _ _
  | whileStmt hword _ _ _ _ _ _ | forStmt hword _ _ _ _ _ _ _ _ _ _ _ | returnStmt hword _ _ _ =>
      rw [Token.isKeyword_iff] at hword
      exact opens_of_ne_fun _ (by simp [hword, startsStatement]) (by simp [hword])
  | @jumpStmt _ _ kind hword _ =>
      rw [Token.isKeyword_iff] at hword
      cases kind <;> exact opens_of_ne_fun _ (by simp [hword, startsStatement, jumpKeyword])
        (by simp [hword, jumpKeyword])
  | blockStmt _ ih =>
      obtain ⟨token, us, rfl, hkind⟩ := ih
      exact opens_of_ne_fun _ (by simp [hkind, startsStatement]) (by simp [hkind])
  | varDecl hword _ _ | varDeclValue hword _ _ _ _ _ =>
    exact ⟨_, _, rfl, Token.isKeyword_iff.1 hword⟩
  | classDecl hword _ _ _ _ | traitDecl hword _ _ _ =>
      rw [Token.isKeyword_iff] at hword
      exact ⟨_, _, rfl, .inr (by simp [hword])⟩
  | funDecl hword _ _ _ =>
      rw [Token.isKeyword_iff] at hword
      exact ⟨_, _, rfl, .inl (by simp [hword, startsStatement, startsExpression, startsPrimary])⟩
  | varDeclaration _ ih =>
      obtain ⟨token, us, rfl, hkind⟩ := ih
      exact ⟨_, _, rfl, .inr (by simp [hkind])⟩
  | @statement _ ts _ _ ih =>
      cases ts with
      | nil => exact ih.elim
      | cons token ts => exact ⟨token, ts, rfl, .inl ih.1⟩
  | noOperator | noAccess | noDeclaration => exact fun token htoken => nomatch htoken
  | operator htoken _ _ _ _ =>
      intro token hfirst
      cases hfirst
      exact htoken
  | arguments hopening _ _ _ _ _ =>
      intro token hfirst
      cases hfirst
      exact .inl (Token.isSymbol_iff.1 hopening)
  | property hdot _ _ _ =>
      intro token hfirst
      cases hfirst
      exact .inr (Token.isSymbol_iff.1 hdot)
  | moreDeclarations _ _ ih _ =>
      obtain ⟨first, us, rfl, hkind⟩ := ih
      intro token hfirst
      cases hfirst
      exact hkind
  | noArguments | someArguments | noExpression | someExpression | noMember | useMember | classMember
  | instanceMember | noInitial | varInitial | exprInitial => trivial

end Grammar
end TraitScript
