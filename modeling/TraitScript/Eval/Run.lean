import TraitScript.Eval.Class
import TraitScript.Eval.Operator

/-!
# Evaluating trees

One step evaluates an expression, runs a statement or calls a value, and leaves all that is inside
to the evaluators it is given. `evaluate`, `execute` and `invoke` repeat the step with a fuel that
bounds the depth of the recursion and the rounds of each loop. A run that ends does not depend on
the fuel, as long as there is enough of it.
-/

namespace TraitScript.Eval

/-- Turns the result of an operator into a step, with errors at the operator. -/
def applied (operator : Token) : Operator.Result → Eval Value
  | .ok value => pure value
  | .error cause => raiseAt operator cause

def evaluateAll (self : Evaluators) : List Expr → Eval (List Value)
  | [] => pure []
  | expr :: rest => do
    let value ← self.evaluate expr
    return value :: (← evaluateAll self rest)

/-- Introduces a variable in the current frame, with or without a value. -/
def introduce (name : Token) : Option Value → Eval Unit
  | some value => do define (← currentFrame) name.lexeme value
  | none => do declare (← currentFrame) name.lexeme

def declareFunction (decl : FunctionDecl) : Eval Flow := do
  let frame ← currentFrame
  let closure ← makeClosure decl frame false
  match decl.name with
  | some name => define frame name.lexeme (.function closure)
  | none => pure ()
  return .normal

def evaluate? (self : Evaluators) : Option Expr → Eval (Option Value)
  | none => pure none
  | some expr => return some (← self.evaluate expr)

/-- Runs the first clause of a `for`; how it ends makes no difference. -/
def enterLoop (self : Evaluators) : Option Stmt → Eval Unit
  | none => pure ()
  | some stmt => do
    let _ ← self.execute stmt
    pure ()

/-! ### One step -/

def evaluateStep (self : Evaluators) : Expr → Eval Value
  | .literal value => pure (.ofLiteral value)
  | .group inner => self.evaluate inner
  | .unary operator right => do
    let value ← self.evaluate right
    applied operator (Operator.unary operator.kind value)
  | .binary left operator right => do
    let a ← self.evaluate left
    let b ← self.evaluate right
    applied operator (Operator.binary operator.kind a b)
  | .logical left operator right => do
    let value ← self.evaluate left
    if Operator.isDecided operator.kind value then pure value else self.evaluate right
  | .conditional condition thenBranch elseBranch => do
    if (← self.evaluate condition).isTruthy then self.evaluate thenBranch
    else self.evaluate elseBranch
  | .variable id name => readVariable id name
  | .assign id name value => do
    let value ← self.evaluate value
    writeVariable id name value
    pure value
  | .call callee paren arguments => do
    let callee ← self.evaluate callee
    let arguments ← evaluateAll self arguments
    self.invoke callee paren.line arguments
  | .function decl => do
    let closure ← makeClosure decl (← currentFrame) false
    pure (.function closure)
  | .get object name => do
    let object ← self.evaluate object
    getProperty self object name
  | .set object name value => do
    let object ← self.evaluate object
    match object.holder? with
    | none => raiseAt name .fieldOfNonInstance
    | some holder =>
      let value ← self.evaluate value
      setField holder name.lexeme value
      pure value
  | .this id keyword => readVariable id keyword
  | .super id keyword method => getSuper self id keyword method

/-- Runs a statement, with at most `rounds` rounds of a loop. -/
def executeStep (self : Evaluators) (rounds : Nat) : Stmt → Eval Flow
  | .expression value => do
    let _ ← self.evaluate value
    pure .normal
  | .print value => do
    let value ← self.evaluate value
    write (value.display ++ "\n")
    pure .normal
  | .variable name initial => do
    let value ← evaluate? self initial
    introduce name value
    pure .normal
  | .block statements => do
    let frame ← newFrame (.block statements) (← currentFrame)
    self.executeBlock statements frame
  | .ifElse condition thenBranch elseBranch => do
    if (← self.evaluate condition).isTruthy then self.execute thenBranch
    else match elseBranch with
      | some branch => self.execute branch
      | none => pure .normal
  | .whileLoop condition body => whileLoop (self.evaluate condition) (self.execute body) rounds
  | .forLoop initial condition increment body => do
    let frame ← newFrame (.loop (.forLoop initial condition increment body)) (← currentFrame)
    inFrame frame do
      enterLoop self initial
      forLoop (condition.map self.evaluate) (increment.map self.evaluate) (self.execute body) rounds
  | .jump _ .breakLoop => pure .breaking
  | .jump _ .continueLoop => pure .continuing
  | .function decl => declareFunction decl
  | .returnValue _ value => do
    let value ← evaluate? self value
    pure (.returning (value.getD .nil))
  | .classDecl name superclass body => declareClass self name superclass body
  | .traitDecl name body => declareTrait self name body

def invokeStep (self : Evaluators) : Value → (line : Nat) → List Value → Eval Value
  | .function closure, line, arguments => do
    checkArity line closure.arity arguments.length
    callClosure self closure arguments
  | .native ref, line, arguments => do
    checkArity line ref.arity arguments.length
    let action ← nativeAction ref arguments
    perform self action
  | .classValue definition, line, arguments => do
    checkArity line definition.arity arguments.length
    construct self definition arguments
  | _, line, _ => raise (some line) .notCallable

/-! ### Repeating the step -/

/-- Three evaluators, and running blocks with the one for statements. -/
def Evaluators.of (evaluate : Expr → Eval Value) (execute : Stmt → Eval Flow)
    (invoke : Value → Nat → List Value → Eval Value) :
    Evaluators where
  evaluate := evaluate
  execute := execute
  executeBlock statements frame := inFrame frame (executeAll execute statements)
  invoke := invoke

mutual

def evaluate : (fuel : Nat) → Expr → Eval Value
  | 0, _ => outOfFuel
  | fuel + 1, expr => evaluateStep (.of (evaluate fuel) (execute fuel) (invoke fuel)) expr

def execute : (fuel : Nat) → Stmt → Eval Flow
  | 0, _ => outOfFuel
  | fuel + 1, stmt => executeStep (.of (evaluate fuel) (execute fuel) (invoke fuel)) fuel stmt

def invoke : (fuel : Nat) → Value → (line : Nat) → List Value → Eval Value
  | 0, _, _, _ => outOfFuel
  | fuel + 1, callee, line, arguments =>
    invokeStep (.of (evaluate fuel) (execute fuel) (invoke fuel)) callee line arguments

end

def evaluators (fuel : Nat) : Evaluators := .of (evaluate fuel) (execute fuel) (invoke fuel)

/-! ### Programs -/

/-- Runs the statements of a program one after another; top-level code has nothing to return to or
jump out of. -/
def interpretFrom (self : Evaluators) : List Stmt → Eval Unit
  | [] => pure ()
  | stmt :: rest => do
    let _ ← self.execute stmt
    interpretFrom self rest

/-- Runs a program; after an error the machine is back in top-level code. -/
def interpret (self : Evaluators) (statements : List Stmt) : Eval Unit := fun m =>
  match interpretFrom self statements m with
  | .ok () m => .ok () m
  | .error stop m => .error stop { m with current := m.globals }

end TraitScript.Eval
