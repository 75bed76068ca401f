import TraitScript.Diagnostic
import TraitScript.Frame
import TraitScript.Number.Written

/-!
# Why a run stops

A run stops early with an error of the script, with a fault when a program was not resolved the way
the machine expects, or because it was given too little fuel.
-/

namespace TraitScript

inductive RuntimeError.Cause where
  /-- A variable could not be read or written. -/
  | access (error : FrameError)
  | operandNotNumber
  | operandsNotNumbers
  | operandsNotAddable
  | divisionByZero
  | notOrdered
  | differentTypes
  | invalidUnary
  | invalidBinary
  | propertyOfNonInstance
  | fieldOfNonInstance
  | undefinedProperty (name : String)
  | notCallable
  | wrongArity (expected got : Nat)
  | superclassNotClass
  | notTrait (shown : String)
  | methodConflict (name : String)
  | classMethodConflict (name : String)
  | randintArguments
  | randintRange (low high : Int)
  | inputArgument
  /-- The next input line is not text. -/
  | inputNotUtf8
  /-- An error of a host function, in its own words. -/
  | host (message : String)
  deriving DecidableEq, Repr

namespace RuntimeError.Cause

def integer (n : Int) : String := Number.sign (n < 0) ++ Decimal.digits n.natAbs

def message : RuntimeError.Cause → String
  | access error => error.message
  | operandNotNumber => "Operand must be a number."
  | operandsNotNumbers => "Operands must be numbers."
  | operandsNotAddable => "Operands must be two numbers or two strings."
  | divisionByZero => "Division by zero."
  | notOrdered => "Operands of this type cannot be ordered."
  | differentTypes => "Operands must be of the same type to compare."
  | invalidUnary => "Invalid unary operator."
  | invalidBinary => "Invalid binary operator."
  | propertyOfNonInstance => "Only instances have properties."
  | fieldOfNonInstance => "Only instances have fields."
  | undefinedProperty name => "Undefined property '" ++ name ++ "'."
  | notCallable => "Can only call functions and classes."
  | wrongArity expected got => s!"Expected {expected} arguments but got {got}."
  | superclassNotClass => "Superclass must be a class."
  | notTrait shown => "'" ++ shown ++ "' is not a trait."
  | methodConflict name => "A previously used trait already provides method '" ++ name ++ "'."
  | classMethodConflict name =>
    "A previously used trait already provides class method '" ++ name ++ "'."
  | randintArguments => "Invalid arguments for randint(), expected (number, number)."
  | randintRange low high =>
    "randint() range is empty: " ++ integer low ++ " > " ++ integer high ++ "."
  | inputArgument => "Invalid argument for input(), expected a string prompt."
  | inputNotUtf8 => "stream did not contain valid UTF-8"
  | host message => message

end RuntimeError.Cause

structure RuntimeError where
  cause : RuntimeError.Cause
  /-- The line of the token at fault; native functions know none. -/
  line : Option Nat
  deriving DecidableEq, Repr

/-- Unreadable input is an error of the outside world, all else one of the script. -/
def RuntimeError.diagnostic (error : RuntimeError) : Diagnostic :=
  match error.cause with
  | .inputNotUtf8 => .io error.cause.message
  | cause => .runtime cause.message error.line

/-- States that no resolved program reaches. -/
inductive Fault where
  | superNotResolved
  | superNotClass
  | jumpEscaped
  | chainEnded (hops distance : Nat)
  deriving DecidableEq, Repr

def Fault.message : Fault → String
  | superNotResolved => "'super' expression was not resolved"
  | superNotClass => "'super' is not bound to a class"
  | jumpEscaped => "internal error: entered unreachable code: loop control escaped a function body"
  | chainEnded hops distance => (FrameError.chainEnded hops distance).message

inductive Stop where
  | error (error : RuntimeError)
  | fault (fault : Fault)
  | outOfFuel
  deriving DecidableEq, Repr

/-- A failed variable access at a line; a chain that is too short is a fault. -/
def Stop.ofFrameError (line : Option Nat) : FrameError → Stop
  | .chainEnded hops distance => .fault (.chainEnded hops distance)
  | e => .error ⟨.access e, line⟩

end TraitScript
