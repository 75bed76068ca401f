import TraitScript.Resolve.Scope

/-!
# Resolving names

One walk over a program finds for every occurrence of a name how many scopes away it is bound, and
all errors in the use of names. It goes on after an error.
-/

namespace TraitScript.Resolve

open State

/-- Parameters are declared and have their values at once; nothing needs to read them. -/
def declareParams (params : List Token) (s : State) : State :=
  params.foldl (fun s param => (s.declare param false).define param) s

def declareDefined (name : Token) (s : State) : State := (s.declare name true).define name

/-- The kind of a method's body; only instance methods can be initializers. -/
def methodKind (decl : FunctionDecl) : FunctionKind :=
  if decl.key = initializerName then .initializer else .method

/-- Enters a function body: its scope holds the parameters, and loops around it do not count. -/
def enterFunction (kind : FunctionKind) (params : List Token) (s : State) : State :=
  declareParams params { s with functionKind := kind, loopDepth := 0 }.beginScope

/-- Leaves a function body for the place where it was entered. -/
def leaveFunction (outside s : State) : State :=
  { s.endScope with functionKind := outside.functionKind, loopDepth := outside.loopDepth }

/-- A `return` must stand in a function, and an initializer returns no value. -/
def checkReturn (keyword : Token) (hasValue : Bool) (s : State) : State :=
  let s := if s.functionKind = .none then s.error keyword .returnAtTopLevel else s
  if hasValue && s.functionKind == .initializer then s.error keyword .valueFromInitializer else s

def checkSuperclass (name : Token) (superclass : Expr) (s : State) : State :=
  match superclass.name? with
  | some parent => if parent.lexeme = name.lexeme then s.error parent .inheritsFromItself else s
  | none => s

def resolveVariable (id : Nat) (name : Token) (s : State) : State :=
  let s := if s.inOwnInitializer name.lexeme then s.error name .readInOwnInitializer else s
  s.lookUp id name.lexeme true

def resolveThis (id : Nat) (keyword : Token) (s : State) : State :=
  if s.classKind = .none then s.error keyword .thisOutsideClass else s.lookUp id keyword.lexeme true

def resolveSuper (id : Nat) (keyword : Token) (s : State) : State :=
  match s.classKind with
  | .none => s.error keyword .superOutsideClass
  | .plain => s.error keyword .superWithoutSuperclass
  | .subclass => s.lookUp id keyword.lexeme true

/-- Goes through the body of a loop with one more loop open. -/
def inLoop (body : State → State) (s : State) : State :=
  (body s.openLoop).closeLoop

mutual

def expr : Expr → State → State
  | .literal _, s => s
  | .group inner, s => expr inner s
  | .unary _ right, s => expr right s
  | .binary left _ right, s => expr right (expr left s)
  | .logical left _ right, s => expr right (expr left s)
  | .conditional condition thenBranch elseBranch, s =>
    expr elseBranch (expr thenBranch (expr condition s))
  | .variable id name, s => resolveVariable id name s
  | .assign id name value, s => (expr value s).lookUp id name.lexeme false
  | .call callee _ arguments, s => exprs arguments (expr callee s)
  | .function decl, s => function .function decl s
  | .get object _, s => expr object s
  | .set object _ value, s => expr object (expr value s)
  | .this id keyword, s => resolveThis id keyword s
  | .super id keyword _, s => resolveSuper id keyword s

def exprs : List Expr → State → State
  | [], s => s
  | first :: rest, s => exprs rest (expr first s)

def expr? : Option Expr → State → State
  | none, s => s
  | some e, s => expr e s

def function (kind : FunctionKind) : FunctionDecl → State → State
  | ⟨_, params, body, _⟩, s => leaveFunction s (stmts body (enterFunction kind params s))

/-- Instance methods, of which one named `init` is an initializer. -/
def methods : List FunctionDecl → State → State
  | [], s => s
  | decl :: rest, s => methods rest (function (methodKind decl) decl s)

def classMethods : List FunctionDecl → State → State
  | [], s => s
  | decl :: rest, s => classMethods rest (function .method decl s)

/-- The methods and class methods of a body, in a scope that holds `this`. -/
def members : ClassBody → State → State
  | ⟨_, instanceMethods, staticMethods⟩, s =>
    (classMethods staticMethods
      (methods instanceMethods (s.beginScope.bindImplicit "this"))).endScope

def uses : ClassBody → State → State
  | ⟨traits, _, _⟩, s => exprs traits s

def stmt : Stmt → State → State
  | .expression value, s => expr value s
  | .print value, s => expr value s
  | .variable name initial, s => (expr? initial (s.declare name true)).define name
  | .block statements, s => (stmts statements s.beginScope).endScope
  | .ifElse condition thenBranch elseBranch, s =>
    stmt? elseBranch (stmt thenBranch (expr condition s))
  | .whileLoop condition body, s => inLoop (stmt body) (expr condition s)
  | .forLoop initial condition increment body, s =>
    (inLoop (stmt body) (expr? increment (expr? condition (stmt? initial s.beginScope)))).endScope
  | .jump keyword kind, s => if s.loopDepth = 0 then s.error keyword (.jumpOutsideLoop kind) else s
  | .function decl, s =>
    let s := match decl.name with
      | some name => declareDefined name s
      | none => s
    function .function decl s
  | .returnValue keyword value, s => expr? value (checkReturn keyword value.isSome s)
  | .classDecl name none body, s =>
    let inside := declareDefined name { s with classKind := .plain }
    { members body (uses body inside) with classKind := s.classKind }
  | .classDecl name (some superclass) body, s =>
    let inside := declareDefined name { s with classKind := .plain }
    let inside := { checkSuperclass name superclass inside with classKind := .subclass }
    let inside := uses body (expr superclass inside)
    { (members body (inside.beginScope.bindImplicit "super")).endScope with
      classKind := s.classKind }
  | .traitDecl name body, s =>
    let inside := { declareDefined name s with classKind := .plain }
    { members body (uses body inside) with classKind := s.classKind }

def stmts : List Stmt → State → State
  | [], s => s
  | first :: rest, s => stmts rest (stmt first s)

def stmt? : Option Stmt → State → State
  | none, s => s
  | some body, s => stmt body s

end

end Resolve

open Resolve

/-- Where the names of a program are bound, and the errors in their use. -/
structure Resolution where
  bindings : List Binding
  errors : List ResolveError

def Resolution.diagnostics (resolution : Resolution) : List Diagnostic :=
  resolution.errors.map (·.diagnostic)

def resolve (statements : List Stmt) : Resolution :=
  let s := stmts statements {}
  ⟨s.bindings, s.errors⟩

end TraitScript
