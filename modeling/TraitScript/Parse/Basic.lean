import TraitScript.Parse.Error

/-!
# Reading tokens

A parser takes tokens from the front of a list. Its state survives an error, so that parsing can go
on after one. Besides the tokens the state holds the errors recorded so far, the next free `id`, and
for every function body around the current place the number of loops open in it.
-/

namespace TraitScript.Parse

structure State where
  /-- The tokens still to be read, without the end of the source. -/
  rest : List Token
  last : Token
  /-- Open loops, innermost function body first; top-level code comes last. -/
  loopDepths : List Nat := [0]
  errors : List ParseError := []
  nextId : Nat := 0

end Parse

abbrev Parser := EStateM ParseError Parse.State

namespace Parse

/-! ### Tokens -/

def State.next (s : State) : Token := s.rest.head?.getD s.last

def next : Parser Token := fun s => .ok s.next s

/-- Whether the next token passes a test; the end of the source never does. -/
def State.check (s : State) (test : Token → Bool) : Bool :=
  match s.rest with
  | [] => false
  | token :: _ => test token

def check (test : Token → Bool) : Parser Bool := fun s => .ok (s.check test) s

def accept (test : Token → Bool) : Parser (Option Token) := fun s =>
  match s.rest with
  | [] => .ok none s
  | token :: rest => if test token then .ok (some token) { s with rest } else .ok none s

def expect (test : Token → Bool) (cause : ParseError.Cause) : Parser Token := fun s =>
  match s.rest with
  | [] => .error ⟨cause, s.last⟩ s
  | token :: rest => if test token then .ok token { s with rest } else .error ⟨cause, token⟩ s

def acceptSymbol (symbol : Symbol) : Parser Bool := do
  return (← accept (·.isSymbol symbol)).isSome

def acceptKeyword (keyword : Keyword) : Parser Bool := do
  return (← accept (·.isKeyword keyword)).isSome

def checkSymbol (symbol : Symbol) : Parser Bool := check (·.isSymbol symbol)

def expectSymbol (symbol : Symbol) (position : Position) : Parser Token :=
  expect (·.isSymbol symbol) (.missingSymbol symbol position)

def expectName (role : NameRole) : Parser Token := expect (·.isIdentifier) (.missingName role)

def atEnd : Parser Bool := fun s => .ok s.rest.isEmpty s

/-- How many tokens are left, a bound for every loop that reads one in each round. -/
def remaining : Parser Nat := fun s => .ok s.rest.length s

/-- A rule that is chosen by the next token and goes on after it, or another rule if that token
starts none. -/
def dispatch {α : Type} (choose : Token → Option (Parser α)) (other : Parser α) : Parser α := do
  match choose (← next) with
  | some rule =>
    let _ ← accept fun _ => true
    rule
  | none => other

/-! ### Errors and ids -/

/-- Gives up the current rule with an error at the next token. -/
def fail {α : Type} (cause : ParseError.Cause) : Parser α := fun s => .error ⟨cause, s.next⟩ s

def report (token : Token) (cause : ParseError.Cause) : Parser Unit := fun s =>
  .ok () { s with errors := s.errors ++ [⟨cause, token⟩] }

/-- An id that no other occurrence has. -/
def freshId : Parser Nat := fun s => .ok s.nextId { s with nextId := s.nextId + 1 }

/-! ### Loops and function bodies -/

/-- Runs a parser and then, whether it succeeded or failed, adjusts the state. -/
def thenAlways {α : Type} (parser : Parser α) (adjust : State → State) : Parser α := fun s =>
  match parser s with
  | .ok a s => .ok a (adjust s)
  | .error e s => .error e (adjust s)

/-- Changes the number of loops open in the innermost function body. -/
def State.mapLoops (change : Nat → Nat) (s : State) : State :=
  match s.loopDepths with
  | [] => s
  | depth :: outer => { s with loopDepths := change depth :: outer }

def inLoop {α : Type} (parser : Parser α) : Parser α := fun s =>
  thenAlways parser (State.mapLoops (· - 1)) (s.mapLoops (· + 1))

/-- A part of the source that is a function body: loops around the function do not reach into it. -/
def inFunction {α : Type} (parser : Parser α) : Parser α := fun s =>
  thenAlways parser (fun s => { s with loopDepths := s.loopDepths.drop 1 })
    { s with loopDepths := 0 :: s.loopDepths }

def insideLoop : Parser Bool := fun s => .ok (s.loopDepths.headD 0 != 0) s

/-! ### Recovery -/

/-- Whether a token can only start a statement. -/
def startsStatement (token : Token) : Bool :=
  match token.kind with
  | .keyword k =>
    match k with
    | .classWord | .traitWord | .funWord | .varWord | .forWord | .ifWord | .whileWord | .printWord
    | .returnWord | .breakWord | .continueWord => true
    | _ => false
  | _ => false

/-- Skips tokens up to the likely start of a statement, where `previous` was skipped last. -/
def skipFrom (previous : Token) : List Token → List Token
  | [] => []
  | token :: rest =>
    if previous.isSymbol .semicolon || startsStatement token then token :: rest
    else skipFrom token rest

/-- Skips the token at fault and all others up to the likely start of a statement. -/
def skip : List Token → List Token
  | [] => []
  | token :: rest => skipFrom token rest

/-- Records the error of a failed rule and skips to where parsing can go on. -/
def recovering {α : Type} (parser : Parser α) : Parser (Option α) := fun s =>
  match parser s with
  | .ok a s => .ok (some a) s
  | .error e s => .ok none { s with errors := s.errors ++ [e], rest := skip s.rest }

end TraitScript.Parse
