import TraitScript.Eval.Run
import TraitScript.Parse.Program

/-!
# Sessions

A session is a machine together with the next free `id` of an occurrence. Whole programs, single
lines and single expressions can be given to it one after another; what one defines the next can
use. A line is a program or, if it is none, an expression whose value is printed.
-/

namespace TraitScript

inductive Ending where
  | finished
  | fault (fault : Fault)
  | outOfFuel
  deriving DecidableEq, Repr

/-- What a program or line wrote, the errors it reported, and how it ended. -/
structure Report where
  output : String
  diagnostics : Diagnostics
  ending : Ending

structure Session where
  machine : Machine
  nextId : Nat

namespace Session

def start (natives : List Native) (world : World) : Session := ⟨.start natives world, 0⟩

/-! ### Running -/

/-- The report of a run that stopped after writing something. -/
def stopReport (output : String) (diagnostics : Diagnostics) : Stop → Report
  | .error error => ⟨output, diagnostics.runtimeError error.diagnostic, .finished⟩
  | .fault fault => ⟨output, diagnostics, .fault fault⟩
  | .outOfFuel => ⟨output, diagnostics, .outOfFuel⟩

/-- Runs resolved statements; the report shows only what they write. -/
def executeWith (self : Eval.Evaluators) (s : Session) (statements : List Stmt) :
    Report × Session :=
  match Eval.interpret self statements { s.machine with output := "" } with
  | .ok () m => (⟨m.output, {}, .finished⟩, { s with machine := m })
  | .error stop m => (stopReport m.output {} stop, { s with machine := m })

def execute (fuel : Nat) (s : Session) (statements : List Stmt) : Report × Session :=
  s.executeWith (Eval.evaluators fuel) statements

def rejected (errors : List Diagnostic) : Report := ⟨"", Diagnostics.extend {} errors, .finished⟩

/-- Resolves statements and keeps what was found, also next to errors. -/
def resolve (s : Session) (statements : List Stmt) : Resolution × Session :=
  let resolution := TraitScript.resolve statements
  (resolution, { s with machine := s.machine.noteAll resolution })

/-- Resolves statements and runs them if that finds no error. -/
def resolveAndExecute (self : Eval.Evaluators) (s : Session) (statements : List Stmt) :
    Report × Session :=
  let (resolution, s) := s.resolve statements
  if resolution.errors.isEmpty then s.executeWith self statements
  else (rejected resolution.diagnostics, s)

/-! ### Programs -/

/-- Runs a whole program. Lexical and syntax errors are reported together; with any of them nothing
is resolved or run. -/
def programWith (self : Eval.Evaluators) (s : Session) (source : Source) : Report × Session :=
  let scanned := Scanned.ofSource source
  let parsed := parseProgram scanned s.nextId
  let errors := scanned.errors ++ parsed.diagnostics
  let s := { s with nextId := parsed.nextId }
  if errors.isEmpty then s.resolveAndExecute self parsed.value else (rejected errors, s)

def program (fuel : Nat) (s : Session) (source : Source) : Report × Session :=
  s.programWith (Eval.evaluators fuel) source

/-! ### Lines -/

/-- Whether the last token ends a statement, so that a line cannot be meant as an expression. -/
def endsStatement (scanned : Scanned) : Bool :=
  match scanned.tokens.getLast? with
  | some token => token.isSymbol .semicolon || token.isSymbol .rightBrace
  | none => false

/-- The statements of a line, or the errors of reading it as a program, and the next free `id`. -/
def parseLine (scanned : Scanned) (firstId : Nat) : Except (List ParseError) (List Stmt) × Nat :=
  let asProgram := parseProgram scanned firstId
  if asProgram.errors.isEmpty then (.ok asProgram.value, asProgram.nextId)
  else if endsStatement scanned then (.error asProgram.errors, asProgram.nextId)
  else
    let asExpression := parseExpression scanned asProgram.nextId
    match asExpression.value, asExpression.errors with
    | some expr, [] => (.ok [.print expr], asExpression.nextId)
    | _, _ => (.error asProgram.errors, asExpression.nextId)

/-- Runs one line. Lexical errors come first and alone. -/
def lineWith (self : Eval.Evaluators) (s : Session) (source : Source) : Report × Session :=
  let scanned := Scanned.ofSource source
  if scanned.errors.isEmpty then
    let (parsed, nextId) := parseLine scanned s.nextId
    let s := { s with nextId }
    match parsed with
    | .ok statements => s.resolveAndExecute self statements
    | .error errors => (rejected (errors.map (·.diagnostic)), s)
  else (rejected scanned.errors, s)

def line (fuel : Nat) (s : Session) (source : Source) : Report × Session :=
  s.lineWith (Eval.evaluators fuel) source

/-! ### Single expressions -/

inductive Evaluation where
  | rejected (errors : List Diagnostic)
  | stopped (report : Report)
  | value (value : Value) (output : String)

def expression (fuel : Nat) (s : Session) (source : Source) : Evaluation × Session :=
  let scanned := Scanned.ofSource source
  let parsed := parseExpression scanned s.nextId
  let errors := scanned.errors ++ parsed.diagnostics
  let s := { s with nextId := parsed.nextId }
  match parsed.value, errors with
  | some expr, [] =>
    let (resolution, s) := s.resolve [.expression expr]
    if resolution.errors.isEmpty then
      match Eval.evaluate fuel expr { s.machine with output := "" } with
      | .ok value m => (.value value m.output, { s with machine := m })
      | .error stop m => (.stopped (stopReport m.output {} stop), { s with machine := m })
    else (.rejected resolution.diagnostics, s)
  | _, _ => (.rejected errors, s)

end Session
end TraitScript
