import TraitScript.Diagnostic
import TraitScript.Tree

/-!
# Errors in the use of names

The errors found by looking at scopes only, each with the token it is reported at.
-/

namespace TraitScript

/-- What is wrong with a name, a `return` or a jump. -/
inductive ResolveError.Cause where
  | redeclared
  | readInOwnInitializer
  | unusedLocal (name : String)
  | inheritsFromItself
  | returnAtTopLevel
  | valueFromInitializer
  | thisOutsideClass
  | superOutsideClass
  | superWithoutSuperclass
  | jumpOutsideLoop (kind : Jump)
  deriving DecidableEq, Repr

def ResolveError.Cause.message : ResolveError.Cause → String
  | redeclared => "Already a variable with this name in this scope."
  | readInOwnInitializer => "Can't read local variable in its own initializer."
  | unusedLocal name => "Local variable '" ++ name ++ "' is never used."
  | inheritsFromItself => "A class can't inherit from itself."
  | returnAtTopLevel => "Can't return from top-level code."
  | valueFromInitializer => "Can't return a value from an initializer."
  | thisOutsideClass => "Can't use 'this' outside of a class."
  | superOutsideClass => "Can't use 'super' outside of a class."
  | superWithoutSuperclass => "Can't use 'super' in a class with no superclass."
  | jumpOutsideLoop kind => "Can't use '" ++ kind.word ++ "' outside of a loop."

structure ResolveError where
  cause : ResolveError.Cause
  token : Token
  deriving DecidableEq

def ResolveError.diagnostic (error : ResolveError) : Diagnostic :=
  .resolve error.cause.message error.token.place error.token.line

end TraitScript
