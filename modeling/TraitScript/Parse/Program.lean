import TraitScript.Parse.Stmt
import TraitScript.Token.Scan

/-!
# Programs and single expressions

A program is read to its end whatever errors it has; declarations that failed are left out. A single
expression must be followed by the end of the source.
-/

namespace TraitScript

/-- What came out of parsing, with the errors in order and the next free `id`. -/
structure Parsed (α : Type) where
  value : α
  errors : List ParseError
  nextId : Nat

def Parsed.hadError {α : Type} (parsed : Parsed α) : Bool := !parsed.errors.isEmpty

def Parsed.diagnostics {α : Type} (parsed : Parsed α) : List Diagnostic :=
  parsed.errors.map (·.diagnostic)

namespace Parse

def State.initial (scanned : Scanned) (firstId : Nat) : State :=
  { rest := scanned.tokens, last := scanned.last, nextId := firstId }

/-- Declarations up to the end; each reads at least one token. -/
def declarationsFrom (r : Rules) : (bound : Nat) → Parser (List Stmt)
  | 0 => pure []
  | bound + 1 => do
    if ← atEnd then return []
    match ← r.declaration with
    | some stmt => return stmt :: (← declarationsFrom r bound)
    | none => declarationsFrom r bound

def program (tokens : Nat) : Parser (List Stmt) := declarationsFrom (rules (tokens + 1)) tokens

def loneExpression (tokens : Nat) : Parser Expr := do
  let expr ← (rules (tokens + 1)).expression
  if ← atEnd then return expr else fail .trailingTokens

end Parse

open Parse

/-- Parses a program; ids are counted from `firstId`. -/
def parseProgram (scanned : Scanned) (firstId : Nat) : Parsed (List Stmt) :=
  match program scanned.tokens.length (.initial scanned firstId) with
  | .ok statements s => ⟨statements, s.errors, s.nextId⟩
  | .error error s => ⟨[], s.errors ++ [error], s.nextId⟩

/-- Parses a single expression; ids are counted from `firstId`. -/
def parseExpression (scanned : Scanned) (firstId : Nat) : Parsed (Option Expr) :=
  match loneExpression scanned.tokens.length (.initial scanned firstId) with
  | .ok expr s => ⟨some expr, s.errors, s.nextId⟩
  | .error error s => ⟨none, s.errors ++ [error], s.nextId⟩

end TraitScript
