import TraitScript.Parse.Expr

/-!
# Statements and declarations

After an error inside a declaration the error is recorded, tokens are skipped to the likely start of
the next statement, and parsing goes on.
-/

namespace TraitScript.Parse

/-! ### Simple statements -/

def expressionStatement (r : Rules) : Parser Stmt := do
  let value ← expression r
  let _ ← expectSymbol .semicolon .afterExpression
  return .expression value

def printStatement (r : Rules) : Parser Stmt := do
  let value ← expression r
  let _ ← expectSymbol .semicolon .afterPrinted
  return .print value

/-- An expression, unless a symbol comes first. -/
def expressionUnless (r : Rules) (symbol : Symbol) : Parser (Option Expr) := do
  if ← checkSymbol symbol then return none
  return some (← expression r)

def returnStatement (r : Rules) (keyword : Token) : Parser Stmt := do
  let value ← expressionUnless r .semicolon
  let _ ← expectSymbol .semicolon .afterReturned
  return .returnValue keyword value

/-- A jump must stand in a loop of its own function body. -/
def jumpStatement (keyword : Token) (kind : Jump) : Parser Stmt := do
  if ← insideLoop then
    let _ ← expectSymbol .semicolon (.afterJump kind)
    return .jump keyword kind
  else throw ⟨.jumpOutsideLoop kind, keyword⟩

def initialValue (r : Rules) : Parser (Option Expr) := do
  if ← acceptSymbol .equal then return some (← expression r)
  return none

def variableDeclaration (r : Rules) : Parser Stmt := do
  let name ← expectName .variableRole
  let initial ← initialValue r
  let _ ← expectSymbol .semicolon .afterVariable
  return .variable name initial

/-! ### Branches and loops -/

def elseBranch (r : Rules) : Parser (Option Stmt) := do
  if ← acceptKeyword .elseWord then return some (← r.statement)
  return none

def ifStatement (r : Rules) : Parser Stmt := do
  let _ ← expectSymbol .leftParen .afterIf
  let condition ← expression r
  let _ ← expectSymbol .rightParen .afterIfCondition
  let thenBranch ← r.statement
  let otherBranch ← elseBranch r
  return .ifElse condition thenBranch otherBranch

def whileStatement (r : Rules) : Parser Stmt := do
  let _ ← expectSymbol .leftParen .afterWhile
  let condition ← expression r
  let _ ← expectSymbol .rightParen .afterWhileCondition
  return .whileLoop condition (← inLoop r.statement)

/-- The first clause of a `for`: a declaration, an expression or nothing, up to its semicolon. -/
def forInitial (r : Rules) : Parser (Option Stmt) := do
  if ← acceptSymbol .semicolon then return none
  else if ← acceptKeyword .varWord then return some (← variableDeclaration r)
  else return some (← expressionStatement r)

def forStatement (r : Rules) : Parser Stmt := do
  let _ ← expectSymbol .leftParen .afterFor
  let initial ← forInitial r
  let condition ← expressionUnless r .semicolon
  let _ ← expectSymbol .semicolon .afterLoopCondition
  let increment ← expressionUnless r .rightParen
  let _ ← expectSymbol .rightParen .afterClauses
  return .forLoop initial condition increment (← inLoop r.statement)

/-- A statement that starts with a token which is read; `none` if the token starts an expression. -/
def statementFrom (r : Rules) (token : Token) : Option (Parser Stmt) :=
  match token.kind with
  | .keyword .forWord => some (forStatement r)
  | .keyword .ifWord => some (ifStatement r)
  | .keyword .whileWord => some (whileStatement r)
  | .keyword .returnWord => some (returnStatement r token)
  | .keyword .breakWord => some (jumpStatement token .breakLoop)
  | .keyword .continueWord => some (jumpStatement token .continueLoop)
  | .keyword .printWord => some (printStatement r)
  | .symbol .leftBrace => some (.block <$> block r)
  | _ => none

def statement (r : Rules) : Parser Stmt := dispatch (statementFrom r) (expressionStatement r)

/-! ### Classes, traits and functions -/

/-- A method, or a getter when a brace follows its name. -/
def method (r : Rules) : Parser FunctionDecl := do
  let name ← expectName .methodRole
  if ← acceptSymbol .leftBrace then
    return { name := some name, params := [], body := ← inFunction (block r), isGetter := true }
  let _ ← expectSymbol .leftParen .afterMethodName
  functionRest r (some name) .beforeMethodBody

def usedTraitsFrom : (bound : Nat) → Parser (List Expr)
  | 0 => do
    let name ← expectName .traitRole
    return [.variable (← freshId) name]
  | bound + 1 => do
    let name ← expectName .traitRole
    let used := Expr.variable (← freshId) name
    if ← acceptSymbol .comma then return used :: (← usedTraitsFrom bound)
    return [used]

/-- The members up to the closing brace, added to those already read. -/
def membersFrom (r : Rules) : (bound : Nat) → ClassBody → Parser ClassBody
  | 0, body => pure body
  | bound + 1, body => do
    if (← checkSymbol .rightBrace) || (← atEnd) then return body
    else if ← acceptKeyword .useWord then
      let used ← usedTraitsFrom (← remaining)
      let _ ← expectSymbol .semicolon .afterTraitList
      membersFrom r bound { body with traits := body.traits ++ used }
    else if ← acceptKeyword .classWord then
      let decl ← method r
      membersFrom r bound { body with classMethods := body.classMethods ++ [decl] }
    else
      let decl ← method r
      membersFrom r bound { body with methods := body.methods ++ [decl] }

def classBody (r : Rules) (before after : Position) : Parser ClassBody := do
  let _ ← expectSymbol .leftBrace before
  let body ← membersFrom r (← remaining) { traits := [], methods := [], classMethods := [] }
  let _ ← expectSymbol .rightBrace after
  return body

def superclass : Parser (Option Expr) := do
  if ← acceptSymbol .less then
    let name ← expectName .superclassRole
    return some (.variable (← freshId) name)
  return none

def classDeclaration (r : Rules) : Parser Stmt := do
  let name ← expectName .classRole
  let parent ← superclass
  return .classDecl name parent (← classBody r .beforeClassBody .afterClassBody)

def traitDeclaration (r : Rules) : Parser Stmt := do
  let name ← expectName .traitRole
  return .traitDecl name (← classBody r .beforeTraitBody .afterTraitBody)

def functionDeclaration (r : Rules) : Parser Stmt := do
  let name ← expectName .functionRole
  let _ ← expectSymbol .leftParen .afterFunctionName
  return .function (← functionRest r (some name) .beforeFunctionBody)

/-- Whether a function declaration comes next: `fun` and a name. -/
def State.startsFunction (s : State) : Bool :=
  match s.rest with
  | word :: name :: _ => word.isKeyword .funWord && name.isIdentifier
  | _ => false

def startsFunction : Parser Bool := fun s => .ok s.startsFunction s

/-- A declaration or statement; the first error ends it. -/
def declarationRule (r : Rules) : Parser Stmt := do
  if ← acceptKeyword .classWord then classDeclaration r
  else if ← acceptKeyword .traitWord then traitDeclaration r
  else if ← startsFunction then
    let _ ← accept fun _ => true
    functionDeclaration r
  else if ← acceptKeyword .varWord then variableDeclaration r
  else statement r

def declaration (r : Rules) : Parser (Option Stmt) := recovering (declarationRule r)

/-! ### All rules together -/

def Rules.refuse : Rules where
  expression := fail .missingExpression
  assignment := fail .missingExpression
  conditional := fail .missingExpression
  comparison := fail .missingExpression
  term := fail .missingExpression
  factor := fail .missingExpression
  unary := fail .missingExpression
  statement := fail .missingExpression
  declaration := recovering (fail .missingExpression)

/-- The rules when re-entry is answered by the given rules. -/
def Rules.step (r : Rules) : Rules where
  expression := Parse.expression r
  assignment := Parse.assignment r
  conditional := Parse.conditional r
  comparison := Parse.comparison r
  term := Parse.term r
  factor := Parse.factor r
  unary := Parse.unary r
  statement := Parse.statement r
  declaration := Parse.declaration r

/-- The rules with at most `depth` re-entries inside each other. Every re-entry has read a token, so
one more than the number of tokens is enough. -/
def rules : (depth : Nat) → Rules
  | 0 => Rules.refuse
  | depth + 1 => (rules depth).step

end TraitScript.Parse
