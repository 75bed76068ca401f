import TraitScript.Tree

/-!
# Code that captures no frame

Functions, classes and traits keep the frame in which their code was run. Code without any of these
leaves nothing behind that leads to the frames it ran in.
-/

namespace TraitScript

mutual

/-- There is no function in the expression. -/
def Expr.isCaptureFree : Expr → Bool
  | .literal _ | .variable .. | .this .. | .super .. => true
  | .function _ => false
  | .group inner => inner.isCaptureFree
  | .unary _ right => right.isCaptureFree
  | .binary left _ right => left.isCaptureFree && right.isCaptureFree
  | .logical left _ right => left.isCaptureFree && right.isCaptureFree
  | .conditional condition thenBranch elseBranch =>
    condition.isCaptureFree && (thenBranch.isCaptureFree && elseBranch.isCaptureFree)
  | .assign _ _ value => value.isCaptureFree
  | .call callee _ arguments => callee.isCaptureFree && Expr.areCaptureFree arguments
  | .get object _ => object.isCaptureFree
  | .set object _ value => object.isCaptureFree && value.isCaptureFree

def Expr.areCaptureFree : List Expr → Bool
  | [] => true
  | expr :: rest => expr.isCaptureFree && Expr.areCaptureFree rest

end

/-- An expression that may be missing. -/
def Expr.isCaptureFree? : Option Expr → Bool
  | none => true
  | some expr => expr.isCaptureFree

mutual

/-- There is no function, class or trait in the statement. -/
def Stmt.isCaptureFree : Stmt → Bool
  | .expression value | .print value => value.isCaptureFree
  | .variable _ initial => Expr.isCaptureFree? initial
  | .block statements => Stmt.areCaptureFree statements
  | .ifElse condition thenBranch elseBranch =>
    condition.isCaptureFree && (thenBranch.isCaptureFree && Stmt.isCaptureFree? elseBranch)
  | .whileLoop condition body => condition.isCaptureFree && body.isCaptureFree
  | .forLoop initial condition increment body =>
    Stmt.isCaptureFree? initial &&
      (Expr.isCaptureFree? condition && (Expr.isCaptureFree? increment && body.isCaptureFree))
  | .jump .. => true
  | .returnValue _ value => Expr.isCaptureFree? value
  | .function _ | .classDecl .. | .traitDecl .. => false

def Stmt.isCaptureFree? : Option Stmt → Bool
  | none => true
  | some stmt => stmt.isCaptureFree

def Stmt.areCaptureFree : List Stmt → Bool
  | [] => true
  | stmt :: rest => stmt.isCaptureFree && Stmt.areCaptureFree rest

end

end TraitScript
