import TraitScript.CommandLine.Arguments
import TraitScript.Session
import TraitScript.Token.Listing
import TraitScript.Tree.Render

/-!
# The command line

Four commands: list the tokens of a file, write the trees of a file, run a file, or hold an
interactive session, which is the default. What a command prints and its exit code are functions of
the arguments, the file and the input.
-/

namespace TraitScript

/-- Why the operating system refuses something. -/
structure SystemError where
  text : String
  number : Nat
  deriving DecidableEq, Repr

namespace SystemError

def missing : SystemError := ⟨"No such file or directory", 2⟩

def directory : SystemError := ⟨"Is a directory", 21⟩

def nameTooLong : SystemError := ⟨"File name too long", 36⟩

def message (error : SystemError) : String :=
  error.text ++ " (os error " ++ Decimal.digits error.number ++ ")"

end SystemError

/-- What is found under a file name. -/
inductive FileContents where
  | bytes (source : Source)
  | unopened (error : SystemError)
  /-- The file could be opened and then not be read. -/
  | unread (error : SystemError)

/-- What a command prints and the code it exits with. -/
structure Outcome where
  stdout : String
  stderr : String
  code : Nat
  deriving DecidableEq, Repr

namespace CommandLine

/-- The exit code when a file cannot be read. -/
def unreadableExit : Nat := 74

/-- The exit code when the arguments make no sense. -/
def usageExit : Nat := 2

/-- The exit code when the input of a session is not text. -/
def inputExit : Nat := 1

def usage : String := "usage: [--log] (tokenize FILE [--json] | parse FILE | run FILE | repl)\n"

def errorLines (diagnostics : Diagnostics) : String :=
  String.join (diagnostics.errors.map fun error => error.text ++ "\n")

def lines (texts : List String) : String := String.join (texts.map (· ++ "\n"))

/-- Listing tokens prints them before any errors. -/
def tokenize (source : Source) (json : Bool) : Outcome :=
  let scanned := Scanned.ofSource source
  let diagnostics := Diagnostics.extend {} scanned.errors
  let stdout :=
    if json then (Json.array (scanned.all.map (·.json))).pretty 0 ++ "\n"
    else lines (scanned.all.map (·.display))
  ⟨stdout, errorLines diagnostics, diagnostics.exitCode?.getD 0⟩

/-- Trees are written only if there is no error at all. -/
def parse (source : Source) : Outcome :=
  let scanned := Scanned.ofSource source
  let parsed := parseProgram scanned 0
  let diagnostics := Diagnostics.extend {} (scanned.errors ++ parsed.diagnostics)
  match diagnostics.exitCode? with
  | some code => ⟨"", errorLines diagnostics, code⟩
  | none => ⟨lines (parsed.value.map (·.render)), "", 0⟩

/-- Running prints what the script writes, then its errors. -/
def run (fuel : Nat) (world : World) (source : Source) : Outcome :=
  let (report, _) := (Session.start Native.standard world).program fuel source
  ⟨report.output, errorLines report.diagnostics, report.diagnostics.exitCode?.getD 0⟩

/-! ### Interactive sessions -/

/-- What is written before each line is read. -/
def prompt : String := "> "

/-- A line of input without its line ending. -/
def chomp (line : List UInt8) : List UInt8 :=
  match line.reverse with
  | 10 :: 13 :: rest => rest.reverse
  | 10 :: rest => rest.reverse
  | _ => line

def notUtf8 : String := "Error: stream did not contain valid UTF-8\n"

/-- Answers one line of input; a line that is not text ends the session. -/
def answer (fuel : Nat) (session : Session) (line : List UInt8) : Option (Report × Session) :=
  match Utf8.decode? line with
  | some _ => some (session.line fuel line)
  | none => none

/-- A session over the input that is left; every round reads at least one byte of it. -/
def converse (fuel : Nat) :
    (bound : Nat) → Session → List UInt8 → (stdout stderr : String) → Outcome
  | 0, _, _, stdout, stderr => ⟨stdout ++ prompt ++ "\n", stderr, 0⟩
  | _, _, [], stdout, stderr => ⟨stdout ++ prompt ++ "\n", stderr, 0⟩
  | bound + 1, session, input, stdout, stderr =>
    let (line, rest) := Eval.splitLine input
    match answer fuel session (chomp line) with
    | some (report, session) =>
      converse fuel bound session rest (stdout ++ prompt ++ report.output)
        (stderr ++ errorLines report.diagnostics)
    | none => ⟨stdout ++ prompt, stderr ++ notUtf8, inputExit⟩

def repl (fuel : Nat) (world : World) : Outcome :=
  converse fuel world.input.length (.start Native.standard { world with input := [] })
    world.input "" ""

/-! ### All commands -/

def unopenedMessage (file : String) (error : SystemError) : String :=
  "Failed to open file " ++ Quoted.inspected file ++ ": " ++ error.message ++ "\n"

def unreadMessage (file : String) (error : SystemError) : String :=
  "Failed to read file " ++ Quoted.inspected file ++ ": " ++ error.message ++ "\n"

/-- Carries out a command; `contents` is what is found under its file name. -/
def perform (fuel : Nat) (world : World) (contents : String → FileContents) (command : Command) :
    Outcome :=
  match command.file? with
  | none => repl fuel world
  | some file =>
    match contents file with
    | .unopened error => ⟨"", unopenedMessage file error, unreadableExit⟩
    | .unread error => ⟨"", unreadMessage file error, unreadableExit⟩
    | .bytes source =>
      match command with
      | .tokenize _ json => tokenize source json
      | .parse _ => parse source
      | .run _ => run fuel world source
      | .repl => repl fuel world

end CommandLine
end TraitScript
