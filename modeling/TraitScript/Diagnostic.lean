import TraitScript.Token

/-!
# Diagnostics

Every reported error is a diagnostic: the stage that found it, its message, and where it is.
`Diagnostics` collects them with one flag for errors found before running and one for errors of a
run, and chooses the exit code.
-/

namespace TraitScript

inductive Diagnostic where
  | lex (message : String) (line : Nat)
  | parse (message place : String) (line : Nat)
  | resolve (message place : String) (line : Nat)
  /-- Errors raised by a native function have no line. -/
  | runtime (message : String) (line : Option Nat)
  | io (message : String)
  | utf8 (message : String)
  deriving DecidableEq, Repr

namespace Diagnostic

/-- The message without its location. -/
def message : Diagnostic → String
  | lex message _ | parse message _ _ | resolve message _ _ | runtime message _ | io message
  | utf8 message => message

def line? : Diagnostic → Option Nat
  | lex _ line | parse _ _ line | resolve _ _ line => some line
  | runtime _ line => line
  | io _ | utf8 _ => none

def place? : Diagnostic → Option String
  | parse _ place _ | resolve _ place _ => some place
  | _ => none

def text : Diagnostic → String
  | lex message line => s!"[line {line}] Error: {message}"
  | parse message place line | resolve message place line =>
    s!"[line {line}] Error{place}: {message}"
  | runtime message (some line) => s!"{message}\n[line {line}]"
  | runtime message none => message
  | io message | utf8 message => message

/-- Whether the error was found before running. -/
def isStatic : Diagnostic → Bool
  | lex .. | parse .. | resolve .. => true
  | runtime .. | io _ | utf8 _ => false

end Diagnostic

/-- The errors reported so far, in order. -/
structure Diagnostics where
  errors : List Diagnostic := []
  hadError : Bool := false
  hadRuntimeError : Bool := false
  deriving DecidableEq, Repr

namespace Diagnostics

/-- The exit code after an error found before running. -/
def staticExit : Nat := 65

/-- The exit code after an error of a run. -/
def runtimeExit : Nat := 70

/-- Records an error and raises the flag of its kind. -/
def report (d : Diagnostics) (error : Diagnostic) : Diagnostics :=
  if error.isStatic then { d with errors := d.errors ++ [error], hadError := true }
  else { d with errors := d.errors ++ [error], hadRuntimeError := true }

def extend (d : Diagnostics) (errors : List Diagnostic) : Diagnostics := errors.foldl report d

/-- Records an error of a run, whatever its kind. -/
def runtimeError (d : Diagnostics) (error : Diagnostic) : Diagnostics :=
  { d with errors := d.errors ++ [error], hadRuntimeError := true }

/-- The exit code for the errors so far; errors found before running win. -/
def exitCode? (d : Diagnostics) : Option Nat :=
  if d.hadError then some staticExit else if d.hadRuntimeError then some runtimeExit else none

def reset (_ : Diagnostics) : Diagnostics := {}

end Diagnostics
end TraitScript
