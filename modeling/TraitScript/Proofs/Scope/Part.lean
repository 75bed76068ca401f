import TraitScript.Proofs.Scope.Place

/-!
# Statements inside a program

Every statement of a program, however deep it stands in blocks, loops, functions and classes, with
the place before it.
-/

namespace TraitScript

mutual

/-- All statements inside an expression, each with the place before it. -/
def Expr.parts : Expr → Place → List (Place × Stmt)
  | .literal _, _ | .variable .., _ | .this .., _ | .super .., _ => []
  | .group inner, p => inner.parts p
  | .unary _ right, p => right.parts p
  | .binary left _ right, p => left.parts p ++ right.parts p
  | .logical left _ right, p => left.parts p ++ right.parts p
  | .conditional condition thenBranch elseBranch, p =>
    condition.parts p ++ thenBranch.parts p ++ elseBranch.parts p
  | .assign _ _ value, p => value.parts p
  | .call callee _ arguments, p => callee.parts p ++ Expr.partsAll arguments p
  | .function decl, p => decl.parts .function p
  | .get object _, p => object.parts p
  | .set object _ value, p => value.parts p ++ object.parts p

def Expr.partsAll : List Expr → Place → List (Place × Stmt)
  | [], _ => []
  | first :: rest, p => first.parts p ++ Expr.partsAll rest p

def Expr.parts? : Option Expr → Place → List (Place × Stmt)
  | none, _ => []
  | some expr, p => expr.parts p

def FunctionDecl.parts : FunctionDecl → Resolve.FunctionKind → Place → List (Place × Stmt)
  | ⟨name, params, body, isGetter⟩, kind, p =>
    Stmt.partsAll body (p.enterFunction kind ⟨name, params, body, isGetter⟩)

def FunctionDecl.partsAll (kind : MethodKind) : List FunctionDecl → Place → List (Place × Stmt)
  | [], _ => []
  | decl :: rest, p =>
    decl.parts (kind.bodyKind decl) (p.enter (.receiver kind decl) ["this"]) ++
      FunctionDecl.partsAll kind rest p

def ClassBody.traitParts : ClassBody → Place → List (Place × Stmt)
  | ⟨traits, _, _⟩, p => Expr.partsAll traits p

def ClassBody.memberParts : ClassBody → Place → List (Place × Stmt)
  | ⟨_, methods, classMethods⟩, p =>
    FunctionDecl.partsAll .ofInstance methods p ++ FunctionDecl.partsAll .ofClass classMethods p

/-- A statement itself and all statements inside it. -/
def Stmt.parts : Stmt → Place → List (Place × Stmt)
  | .expression value, p => (p, .expression value) :: value.parts p
  | .print value, p => (p, .print value) :: value.parts p
  | .variable name initial, p => (p, .variable name initial) :: Expr.parts? initial (p.declare name)
  | .block statements, p =>
    (p, .block statements) :: Stmt.partsAll statements (p.enter (.block statements) [])
  | .ifElse condition thenBranch elseBranch, p =>
    (p, .ifElse condition thenBranch elseBranch) ::
      (condition.parts p ++ thenBranch.parts p ++ Stmt.parts? elseBranch (thenBranch.after p))
  | .whileLoop condition body, p =>
    (p, .whileLoop condition body) :: (condition.parts p ++ body.parts p.enterLoop)
  | .forLoop initial condition increment body, p =>
    let first := p.enter (.loop (.forLoop initial condition increment body)) []
    let inside := Stmt.after? initial first
    (p, .forLoop initial condition increment body) ::
      (Stmt.parts? initial first ++ Expr.parts? condition inside ++ Expr.parts? increment inside ++
        body.parts inside.enterLoop)
  | .jump keyword kind, p => [(p, .jump keyword kind)]
  | .function decl, p => (p, .function decl) :: decl.parts .function (p.declare? decl.name)
  | .returnValue keyword value, p => (p, .returnValue keyword value) :: Expr.parts? value p
  | .classDecl name none body, p =>
    let inside := (p.declare name).inClass .plain
    (p, .classDecl name none body) :: (body.traitParts inside ++ body.memberParts inside)
  | .classDecl name (some parent) body, p =>
    let inside := (p.declare name).inClass .subclass
    (p, .classDecl name (some parent) body) :: (parent.parts inside ++ body.traitParts inside ++
      body.memberParts (inside.enter (.superclass (.classDecl name (some parent) body)) ["super"]))
  | .traitDecl name body, p =>
    let inside := (p.declare name).inClass .plain
    (p, .traitDecl name body) :: (body.traitParts inside ++ body.memberParts inside)

def Stmt.partsAll : List Stmt → Place → List (Place × Stmt)
  | [], _ => []
  | first :: rest, p => first.parts p ++ Stmt.partsAll rest (first.after p)

def Stmt.parts? : Option Stmt → Place → List (Place × Stmt)
  | none, _ => []
  | some stmt, p => stmt.parts p

end

/-- All statements of a program, from top-level code. -/
def programParts (statements : List Stmt) : List (Place × Stmt) := Stmt.partsAll statements .top

end TraitScript
