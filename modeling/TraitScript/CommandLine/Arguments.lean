/-!
# Arguments

The name of a command may come after options for the program and is followed by the command's own
options and words, in any order. An option begins with a dash and says one thing, so it is given
once; a dash alone is a word. After `--` every argument is a word, whatever it looks like.
-/

namespace TraitScript

inductive Command where
  | tokenize (file : String) (json : Bool)
  | parse (file : String)
  | run (file : String)
  | repl
  deriving DecidableEq, Repr

/-- A command, and whether a log file is asked for. -/
structure Invocation where
  command : Command
  log : Bool
  deriving DecidableEq, Repr

def logOption : String := "--log"

def jsonOption : String := "--json"

namespace Command

def file? : Command → Option String
  | .tokenize file _ | .parse file | .run file => some file
  | .repl => none

def options : Command → List String
  | .tokenize .. => [logOption, jsonOption]
  | _ => [logOption]

end Command

structure Arguments where
  /-- The options before the name of a command. -/
  general : List String
  name : Option String
  /-- The options of the command. -/
  options : List String
  words : List String
  deriving DecidableEq, Repr

namespace Arguments

def isOption (argument : String) : Bool := argument.toList.head? == some '-' && argument != "-"

def ofList (arguments : List String) : Arguments :=
  let front := arguments.takeWhile (· != "--")
  let back := arguments.drop (front.length + 1)
  let general := front.takeWhile isOption
  match front.drop general.length with
  | [] => ⟨general, none, [], back⟩
  | name :: own => ⟨general, some name, own.filter isOption, own.filter (!isOption ·) ++ back⟩

/-- The command, which must have just the words it needs; an empty text names no file. -/
def command? (a : Arguments) : Option Command :=
  match a.name, a.words with
  | none, [] | some "repl", [] => some .repl
  | some _, [""] => none
  | some "tokenize", [file] => some (.tokenize file (a.options.contains jsonOption))
  | some "parse", [file] => some (.parse file)
  | some "run", [file] => some (.run file)
  | _, _ => none

/-- Whether options are among those that are known, none of them twice. -/
def areValid (known options : List String) : Bool :=
  options.all known.contains && decide options.Nodup

end Arguments

/-- What arguments ask for; `none` if they make no sense. -/
def Invocation.ofArguments? (arguments : List String) : Option Invocation := do
  let a := Arguments.ofList arguments
  let command ← a.command?
  if Arguments.areValid [logOption] a.general && Arguments.areValid command.options a.options then
    return { command, log := a.general.contains logOption || a.options.contains logOption }
  else none

end TraitScript
