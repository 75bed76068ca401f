import TraitScript.Machine.Basic

/-!
# Running function bodies

Evaluating goes in a circle: a call runs the statements of a body, and these evaluate expressions
that call. Every step takes the evaluators it may re-enter as an argument.
-/

namespace TraitScript

inductive Flow where
  | normal
  | returning (value : Value)
  | breaking
  | continuing

namespace Eval

/-- The evaluators that a step re-enters. -/
structure Evaluators where
  evaluate : Expr → Eval Value
  execute : Stmt → Eval Flow
  /-- Runs statements in a frame and comes back. -/
  executeBlock : List Stmt → FrameId → Eval Flow
  /-- Calls a value with arguments; errors of the call itself are located at a line. -/
  invoke : Value → (line : Nat) → List Value → Eval Value

/-! ### Sequences and loops -/

/-- Runs statements one after another until one does not end normally. -/
def executeAll (execute : Stmt → Eval Flow) : List Stmt → Eval Flow
  | [] => pure .normal
  | stmt :: rest => do
    match ← execute stmt with
    | .normal => executeAll execute rest
    | flow => pure flow

/-- Runs a body as long as its condition holds, for at most `fuel` rounds. -/
def whileLoop (condition : Eval Value) (body : Eval Flow) : (fuel : Nat) → Eval Flow
  | 0 => outOfFuel
  | fuel + 1 => do
    if (← condition).isTruthy then
      match ← body with
      | .breaking => pure .normal
      | .returning value => pure (.returning value)
      | .normal | .continuing => whileLoop condition body fuel
    else pure .normal

/-- An optional condition, which holds when it is absent. -/
def holds : Option (Eval Value) → Eval Bool
  | none => pure true
  | some condition => return (← condition).isTruthy

def perhaps : Option (Eval Value) → Eval Unit
  | none => pure ()
  | some part => do
    let _ ← part
    pure ()

/-- The rounds of a `for`, at most `fuel` of them. Each round has a frame of its own: after the body
the loop goes on in a copy of the frame, and only then comes the increment, so closures made in a
round keep the variables they saw. -/
def forLoop (condition increment : Option (Eval Value)) (body : Eval Flow) :
    (fuel : Nat) → Eval Flow
  | 0 => outOfFuel
  | fuel + 1 => do
    if ← holds condition then
      match ← body with
      | .breaking => pure .normal
      | .returning value => pure (.returning value)
      | .normal | .continuing =>
        nextIteration
        perhaps increment
        forLoop condition increment body fuel
    else pure .normal

/-! ### Calls -/

def makeClosure (decl : FunctionDecl) (frame : FrameId) (isInitializer : Bool) : Eval Closure := do
  return { id := ← freshId, decl, frame, isInitializer }

/-- A function whose frame is one further in and binds `this` to a receiver. -/
def bindReceiver (closure : Closure) (receiver : Value) : Eval Closure := do
  let frame ← newFrame (.receiver closure.decl receiver) closure.frame
  define frame "this" receiver
  return { closure with id := ← freshId, frame }

def defineParams (frame : FrameId) : List Token → List Value → Eval Unit
  | param :: params, argument :: arguments => do
    define frame param.lexeme argument
    defineParams frame params arguments
  | _, _ => pure ()

/-- The value of a call whose body ended in a certain way. An initializer yields the receiver it is
bound to. -/
def callResult (closure : Closure) (flow : Flow) : Eval Value := do
  if closure.isInitializer then
    match ← readAt closure.frame 0 "this" with
    | .ok receiver => pure receiver
    | .error error => throw (.ofFrameError none error)
  else
    match flow with
    | .returning value => pure value
    | .normal => pure .nil
    | .breaking | .continuing => fault .jumpEscaped

/-- Runs the body of a function in a new frame that holds its parameters. -/
def callClosure (self : Evaluators) (closure : Closure) (arguments : List Value) : Eval Value := do
  let frame ← newFrame (.call closure.decl) closure.frame
  defineParams frame closure.decl.params arguments
  let flow ← self.executeBlock closure.decl.body frame
  callResult closure flow

/-- A call needs as many arguments as there are parameters. -/
def checkArity (line expected got : Nat) : Eval Unit :=
  if expected = got then pure () else raise (some line) (.wrongArity expected got)

/-- A new instance, on which the initializer of its class has run. -/
def construct (self : Evaluators) (definition : Class) (arguments : List Value) : Eval Value := do
  let inst := Value.object { id := ← newHolder, definingClass := definition }
  match definition.initializer? with
  | none => pure inst
  | some init =>
    let bound ← bindReceiver init inst
    let _ ← callClosure self bound arguments
    pure inst

def perform (self : Evaluators) : Action → Eval Value
  | .done value => pure value
  | .fail cause => raise none cause
  | .write text next => do
    write text
    perform self next
  | .readLine next => do
    let line ← readLine
    perform self (next line)
  | .readClock next => do
    let seconds ← readClock
    perform self (next seconds)
  | .pick low high next => do
    let n ← pick low high
    perform self (next n)
  | .call callee line arguments next => do
    let value ← self.invoke callee line arguments
    perform self (next value)

def nativeAction (ref : NativeRef) (arguments : List Value) : Eval Action := fun m =>
  match m.natives[ref.id]? with
  | some native => .ok (native.body arguments) m
  | none => .ok (.fail .notCallable) m

end Eval
end TraitScript
