import Std.Time.DateTime.Timestamp
import TraitScript.CommandLine

/-!
# The program

Reads arguments, files and input, and prints what the commands answer. Standard input is read ahead
only for scripts that name `input`; an interactive session is answered line by line.
-/

namespace TraitScript.Program

/-- More rounds and calls than any script can make in practice. -/
def fuel : Nat := Binary.twoTo 62

/-- The file that `--log` creates. -/
def logFile : String := "rox.log"

/-- The world at the moment, with the given input. -/
def world (input : List UInt8) : IO World := do
  let nanoseconds := (← Std.Time.Timestamp.now).toNanosecondsSinceUnixEpoch.val
  let seed ← IO.getRandomBytes 8
  let seconds := Float.ofInt (nanoseconds / 1000) / 1000000
  return { input, clock := World.clockFrom seconds,
           random := World.randomFrom (seed.foldl (fun n b => 256 * n + b.toNat) 0) }

/-- The reason of the operating system for an error. -/
def systemError : IO.Error → SystemError
  | .noFileOrDirectory _ number text | .permissionDenied _ number text
  | .inappropriateType _ number text | .invalidArgument _ number text
  | .resourceExhausted _ number text | .otherError number text =>
    ⟨text, number.toNat⟩
  | error => ⟨error.toString, 5⟩

/-- What is found under a file name. -/
def contents (file : String) : IO FileContents := do
  match ← (IO.FS.Handle.mk file .read).toBaseIO with
  | .error error => return .unopened (systemError error)
  | .ok handle =>
    match ← handle.readBinToEnd.toBaseIO with
    | .error error => return .unread (systemError error)
    | .ok source => return .bytes source.data.toList

/-- Reads bytes up to a line feed or the end of input. -/
partial def readLine (stream : IO.FS.Stream) (line : List UInt8) : IO (List UInt8) := do
  let bytes ← stream.read 1
  match bytes.data.toList with
  | [] => return line.reverse
  | byte :: _ => if byte = 10 then return (byte :: line).reverse else readLine stream (byte :: line)

partial def readAll (stream : IO.FS.Stream) (bytes : ByteArray) : IO (List UInt8) := do
  let more ← stream.read 65536
  if more.isEmpty then return bytes.data.toList else readAll stream (bytes ++ more)

/-- Answers line after line until the input ends. -/
partial def converse (session : Session) : IO UInt32 := do
  let stdin ← IO.getStdin
  let stdout ← IO.getStdout
  let stderr ← IO.getStderr
  stdout.putStr CommandLine.prompt
  stdout.flush
  let line ← readLine stdin []
  if line.isEmpty then
    stdout.putStr "\n"
    return 0
  match CommandLine.answer fuel session (CommandLine.chomp line) with
  | some (report, session) =>
    stdout.putStr report.output
    stdout.flush
    stderr.putStr (CommandLine.errorLines report.diagnostics)
    converse session
  | none =>
    stderr.putStr CommandLine.notUtf8
    return UInt32.ofNat CommandLine.inputExit

/-- Whether a script names the function that reads input. -/
def readsInput (source : FileContents) : Bool :=
  match source with
  | .bytes bytes => (Scanned.ofSource bytes).tokens.any (·.lexeme == Native.input.name)
  | _ => false

def performFile (command : Command) (file : String) : IO UInt32 := do
  let source ← contents file
  let input ← if readsInput source then readAll (← IO.getStdin) .empty else pure []
  let outcome := CommandLine.perform fuel (← world input) (fun _ => source) command
  (← IO.getStdout).putStr outcome.stdout
  (← IO.getStderr).putStr outcome.stderr
  return UInt32.ofNat outcome.code

end TraitScript.Program

open TraitScript TraitScript.Program

def main (arguments : List String) : IO UInt32 := do
  match Invocation.ofArguments? arguments with
  | none =>
    (← IO.getStderr).putStr CommandLine.usage
    return UInt32.ofNat CommandLine.usageExit
  | some invocation =>
    if invocation.log then IO.FS.writeFile logFile ""
    match invocation.command.file? with
    | some file => performFile invocation.command file
    | none => converse (.start Native.standard (← world []))
