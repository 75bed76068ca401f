import TraitScript.Resolve.Error
import TraitScript.Table

/-!
# Scopes

While a tree is walked, a stack of scopes holds the local names visible at the current place. Names
that no scope holds are global. A local that goes out of scope without having been read is reported,
unless it is a parameter.
-/

namespace TraitScript.Resolve

/-- How far a local has come: its name is taken, it has a value, it has been read. -/
inductive Progress where
  | declared
  | defined
  | read
  deriving DecidableEq, Repr

structure Local where
  /-- Where the local is declared; `this` and `super` are declared nowhere. -/
  token : Option Token
  progress : Progress
  /-- Whether it is an error if nothing reads the local. -/
  mustBeRead : Bool
  deriving DecidableEq

abbrev Scope := Table Local

inductive FunctionKind where
  | none
  | function
  | method
  | initializer
  deriving DecidableEq, Repr

inductive ClassKind where
  | none
  | plain
  | subclass
  deriving DecidableEq, Repr

/-- What was found out about an occurrence of a name: how many scopes away it is bound, or that it
is global. -/
structure Binding where
  id : Nat
  name : String
  distance : Option Nat
  deriving DecidableEq, Repr

structure State where
  /-- The scopes around the current place, innermost first. -/
  scopes : List Scope := []
  functionKind : FunctionKind := .none
  classKind : ClassKind := .none
  /-- The loops open in the current function body. -/
  loopDepth : Nat := 0
  errors : List ResolveError := []
  /-- The occurrences looked up so far, in order. -/
  bindings : List Binding := []

namespace State

def error (s : State) (token : Token) (cause : ResolveError.Cause) : State :=
  { s with errors := s.errors ++ [⟨cause, token⟩] }

/-! ### Unused locals -/

/-- The tokens of the locals of a scope that nothing has read but something should have. -/
def unused (scope : Scope) : List Token :=
  scope.entries.filterMap fun (_, entry) =>
    if entry.mustBeRead && entry.progress != .read then entry.token else Option.none

/-- By line, and by name on the same line. -/
def precedes (a b : Token) : Bool := a.line < b.line || (a.line == b.line && a.lexeme < b.lexeme)

def insertSorted (token : Token) : List Token → List Token
  | [] => [token]
  | other :: rest =>
    if precedes other token then other :: insertSorted token rest else token :: other :: rest

def sortTokens : List Token → List Token
  | [] => []
  | token :: rest => insertSorted token (sortTokens rest)

def reportUnused (tokens : List Token) (s : State) : State :=
  tokens.foldl (fun s token => s.error token (.unusedLocal token.lexeme)) s

/-! ### Opening and closing -/

def beginScope (s : State) : State := { s with scopes := ∅ :: s.scopes }

/-- Closes the innermost scope and reports its unused locals. -/
def endScope (s : State) : State :=
  match s.scopes with
  | [] => s
  | scope :: outer => reportUnused (sortTokens (unused scope)) { s with scopes := outer }

def openLoop (s : State) : State := { s with loopDepth := s.loopDepth + 1 }

def closeLoop (s : State) : State := { s with loopDepth := s.loopDepth - 1 }

/-! ### Declaring -/

/-- Takes a name in the innermost scope; outside all scopes names are global and need not be
declared. -/
def declare (s : State) (name : Token) (mustBeRead : Bool) : State :=
  match s.scopes with
  | [] => s
  | scope :: outer =>
    if scope.contains name.lexeme then s.error name .redeclared
    else { s with scopes := scope.insert name.lexeme ⟨some name, .declared, mustBeRead⟩ :: outer }

def define (s : State) (name : Token) : State :=
  match s.scopes with
  | [] => s
  | scope :: outer =>
    match scope.find? name.lexeme with
    | some entry =>
      if entry.progress = .declared then
        { s with scopes := scope.insert name.lexeme { entry with progress := .defined } :: outer }
      else s
    | Option.none => s

def bindImplicit (s : State) (name : String) : State :=
  match s.scopes with
  | [] => s
  | scope :: outer => { s with scopes := scope.insert name ⟨Option.none, .read, false⟩ :: outer }

/-! ### Looking up -/

/-- How many scopes out the nearest one that holds a name is. -/
def distance? (name : String) : List Scope → Option Nat
  | [] => Option.none
  | scope :: outer => if scope.contains name then some 0 else (distance? name outer).map (· + 1)

def markRead (name : String) : List Scope → List Scope
  | [] => []
  | scope :: outer =>
    match scope.find? name with
    | some entry => scope.insert name { entry with progress := .read } :: outer
    | Option.none => scope :: markRead name outer

def lookUp (s : State) (id : Nat) (name : String) (isRead : Bool) : State :=
  { s with
    scopes := if isRead then markRead name s.scopes else s.scopes
    bindings := s.bindings ++ [⟨id, name, distance? name s.scopes⟩] }

/-- Whether a name is declared in the innermost scope but has no value yet. -/
def inOwnInitializer (s : State) (name : String) : Bool :=
  match s.scopes with
  | [] => false
  | scope :: _ =>
    match scope.find? name with
    | some entry => entry.progress == .declared
    | Option.none => false

end State
end TraitScript.Resolve
