import TraitScript.Parse.Basic

/-!
# Expressions

The rules of the grammar call each other in a circle. Here every rule takes the rules it may
re-enter as an argument; each re-entry happens after a token was read. Loops inside a rule read a
token in every round and are bounded by the number of tokens left.
-/

namespace TraitScript.Parse

/-- The rules that other rules re-enter. -/
structure Rules where
  expression : Parser Expr
  assignment : Parser Expr
  conditional : Parser Expr
  comparison : Parser Expr
  term : Parser Expr
  factor : Parser Expr
  unary : Parser Expr
  statement : Parser Stmt
  /-- A declaration, or nothing after an error from which parsing recovered. -/
  declaration : Parser (Option Stmt)

def maxArguments : Nat := 255

/-! ### Levels of binary operators -/

def isAnySymbol (symbols : List Symbol) (token : Token) : Bool := symbols.any (token.isSymbol ·)

/-- Operators and operands to the right of what has been read. -/
def leftAssociativeFrom (operand : Parser Expr) (operator : Token → Bool)
    (node : Expr → Token → Expr → Expr) :
    (bound : Nat) → Expr → Parser Expr
  | 0, left => pure left
  | bound + 1, left => do
    match ← accept operator with
    | none => pure left
    | some token =>
      let right ← operand
      leftAssociativeFrom operand operator node bound (node left token right)

/-- Operands joined from the left: `operand (operator operand)*`. -/
def leftAssociative (operand : Parser Expr) (operator : Token → Bool)
    (node : Expr → Token → Expr → Expr) :
    Parser Expr := do
  let left ← operand
  leftAssociativeFrom operand operator node (← remaining) left

/-! ### Functions -/

/-- Reports a list in which the greatest number of entries is already read. -/
def checkCount (count : Nat) (cause : ParseError.Cause) : Parser Unit := do
  if maxArguments ≤ count then report (← next) cause

/-- Parameter names after an opening parenthesis, of which `count` are read. -/
def parametersFrom : (bound count : Nat) → Parser (List Token)
  | 0, count => do
    checkCount count .tooManyParameters
    return [← expectName .parameterRole]
  | bound + 1, count => do
    checkCount count .tooManyParameters
    let param ← expectName .parameterRole
    if ← acceptSymbol .comma then return param :: (← parametersFrom bound (count + 1))
    return [param]

def parameters : Parser (List Token) := do
  if ← checkSymbol .rightParen then return []
  parametersFrom (← remaining) 0

def statementsFrom (r : Rules) : (bound : Nat) → Parser (List Stmt)
  | 0 => pure []
  | bound + 1 => do
    if (← checkSymbol .rightBrace) || (← atEnd) then return []
    match ← r.declaration with
    | some stmt => return stmt :: (← statementsFrom r bound)
    | none => statementsFrom r bound

/-- A block whose opening brace is read. -/
def block (r : Rules) : Parser (List Stmt) := do
  let statements ← statementsFrom r (← remaining)
  let _ ← expectSymbol .rightBrace .afterBlock
  return statements

/-- Parameters and body of a function whose opening parenthesis is read. -/
def functionRest (r : Rules) (name : Option Token) (beforeBody : Position) :
    Parser FunctionDecl := do
  let params ← parameters
  let _ ← expectSymbol .rightParen .afterParameters
  let _ ← expectSymbol .leftBrace beforeBody
  let body ← inFunction (block r)
  return { name, params, body, isGetter := false }

/-! ### Primary expressions -/

/-- The operators whose missing left side is reported, with the rule for the right side. -/
def orphanOperators (r : Rules) : List (List Symbol × Parser Expr) :=
  [([.bangEqual, .equalEqual], r.comparison),
    ([.greater, .greaterEqual, .less, .lessEqual], r.term),
    ([.plus], r.factor),
    ([.slash, .star], r.unary),
    ([.comma], r.assignment)]

/-- Reports an operator without a left side and reads its right side, which is dropped. -/
def orphanOperand : List (List Symbol × Parser Expr) → Parser Expr
  | [] => fail .missingExpression
  | (symbols, operand) :: rest => do
    match ← accept (isAnySymbol symbols) with
    | none => orphanOperand rest
    | some token =>
      report token .missingLeftOperand
      let _ ← operand
      return .literal .nil

/-- An expression that starts with a keyword which is read; `none` for keywords that start none. -/
def keywordExpression (r : Rules) (token : Token) : Keyword → Option (Parser Expr)
  | .falseWord => some (pure (.literal (.bool false)))
  | .trueWord => some (pure (.literal (.bool true)))
  | .nilWord => some (pure (.literal .nil))
  | .thisWord => some do return .this (← freshId) token
  | .superWord => some do
    let _ ← expectSymbol .dot .afterSuper
    let method ← expectName .superclassMethodRole
    return .super (← freshId) token method
  | .funWord => some do
    let _ ← expectSymbol .leftParen .afterFun
    return .function (← functionRest r none .beforeFunctionBody)
  | _ => none

/-- An expression in parentheses, of which the first is read. -/
def groupRest (r : Rules) : Parser Expr := do
  let inner ← r.expression
  let _ ← expectSymbol .rightParen .afterExpression
  return .group inner

/-- The expression that a token starts, or `none` if it starts none. -/
def primaryFrom (r : Rules) (token : Token) : Option (Parser Expr) :=
  match token.kind with
  | .number value => some (pure (.literal (.number value)))
  | .string contents => some (pure (.literal (.string contents)))
  | .identifier => some do return .variable (← freshId) token
  | .keyword k => keywordExpression r token k
  | .symbol .leftParen => some (groupRest r)
  | _ => none

def primary (r : Rules) : Parser Expr :=
  dispatch (primaryFrom r) (orphanOperand (orphanOperators r))

/-! ### Calls and properties -/

/-- Arguments after an opening parenthesis, of which `count` are read. -/
def argumentsFrom (r : Rules) : (bound count : Nat) → Parser (List Expr)
  | 0, count => do
    checkCount count .tooManyArguments
    return [← r.assignment]
  | bound + 1, count => do
    checkCount count .tooManyArguments
    let argument ← r.assignment
    if ← acceptSymbol .comma then return argument :: (← argumentsFrom r bound (count + 1))
    return [argument]

def arguments (r : Rules) : Parser (List Expr) := do
  if ← checkSymbol .rightParen then return []
  argumentsFrom r (← remaining) 0

def callRest (r : Rules) (callee : Expr) : Parser Expr := do
  let arguments ← arguments r
  let paren ← expectSymbol .rightParen .afterArguments
  return .call callee paren arguments

def accessesFrom (r : Rules) : (bound : Nat) → Expr → Parser Expr
  | 0, expr => pure expr
  | bound + 1, expr => do
    if ← acceptSymbol .leftParen then accessesFrom r bound (← callRest r expr)
    else if ← acceptSymbol .dot then accessesFrom r bound (.get expr (← expectName .propertyRole))
    else return expr

def call (r : Rules) : Parser Expr := do
  let expr ← primary r
  accessesFrom r (← remaining) expr

/-! ### Operators by precedence -/

def unary (r : Rules) : Parser Expr := do
  match ← accept (isAnySymbol [.bang, .minus]) with
  | some operator => return .unary operator (← r.unary)
  | none => call r

def factor (r : Rules) : Parser Expr :=
  leftAssociative (unary r) (isAnySymbol [.slash, .star]) .binary

def term (r : Rules) : Parser Expr :=
  leftAssociative (factor r) (isAnySymbol [.minus, .plus]) .binary

def comparison (r : Rules) : Parser Expr :=
  leftAssociative (term r) (isAnySymbol [.greater, .greaterEqual, .less, .lessEqual]) .binary

def equality (r : Rules) : Parser Expr :=
  leftAssociative (comparison r) (isAnySymbol [.bangEqual, .equalEqual]) .binary

def logicalAnd (r : Rules) : Parser Expr :=
  leftAssociative (equality r) (·.isKeyword .andWord) .logical

def logicalOr (r : Rules) : Parser Expr :=
  leftAssociative (logicalAnd r) (·.isKeyword .orWord) .logical

def conditional (r : Rules) : Parser Expr := do
  let condition ← logicalOr r
  if ← acceptSymbol .question then
    let thenBranch ← r.expression
    let _ ← expectSymbol .colon .afterThenBranch
    return .conditional condition thenBranch (← r.conditional)
  return condition

/-- What an assignment to an expression is: variables and properties can be assigned to. -/
def assignTo (target value : Expr) : Option Expr :=
  match target with
  | .variable id name => some (.assign id name value)
  | .get object name => some (.set object name value)
  | _ => none

/-- An assignment to anything else is reported, and its left side is kept. -/
def assignment (r : Rules) : Parser Expr := do
  let target ← conditional r
  match ← accept (·.isSymbol .equal) with
  | none => return target
  | some equals =>
    let value ← r.assignment
    match assignTo target value with
    | some expr => return expr
    | none =>
      report equals .invalidTarget
      return target

def expression (r : Rules) : Parser Expr :=
  leftAssociative (assignment r) (isAnySymbol [.comma]) .binary

end TraitScript.Parse
