import TraitScript.Number.Written
import TraitScript.Tree

/-!
# Trees as text

A tree is written in parentheses with its operator first, as in `(+ 1.0 (group (* 2.0 3.0)))`.
-/

namespace TraitScript

def Literal.render : Literal → String
  | .number value => Number.inTree value
  | .string text => text
  | .bool true => "true"
  | .bool false => "false"
  | .nil => "nil"

/-- Words between parentheses, separated by single blanks. -/
def parenthesize (words : List String) : String := "(" ++ " ".intercalate words ++ ")"

mutual

def Expr.render : Expr → String
  | .literal value => value.render
  | .group inner => parenthesize ["group", inner.render]
  | .unary operator right => parenthesize [operator.lexeme, right.render]
  | .binary left operator right => parenthesize [operator.lexeme, left.render, right.render]
  | .logical left operator right => parenthesize [operator.lexeme, left.render, right.render]
  | .conditional condition thenBranch elseBranch =>
    parenthesize ["?:", condition.render, thenBranch.render, elseBranch.render]
  | .variable _ name => name.lexeme
  | .assign _ name value => parenthesize ["=", name.lexeme, value.render]
  | .call callee _ arguments => parenthesize ("call" :: callee.render :: renderExprs arguments)
  | .function decl => decl.render "fun"
  | .get object name => parenthesize [".", object.render, name.lexeme]
  | .set object name value =>
    parenthesize ["=", parenthesize [".", object.render, name.lexeme], value.render]
  | .this _ _ => "this"
  | .super _ _ method => parenthesize ["super", method.lexeme]

def renderExprs : List Expr → List String
  | [] => []
  | expr :: rest => expr.render :: renderExprs rest

/-- An optional part, written as nothing when it is absent. -/
def renderExpr? : Option Expr → List String
  | none => []
  | some expr => [expr.render]

/-- A clause of a loop, written `nil` when it is absent. -/
def renderClause : Option Expr → String
  | none => "nil"
  | some expr => expr.render

/-- A function after a keyword; getters have no parameter list. -/
def FunctionDecl.render (keyword : String) : FunctionDecl → String
  | ⟨name, params, body, isGetter⟩ =>
    parenthesize <|
      keyword :: (name.map (·.lexeme)).toList ++
        (if isGetter then [] else [parenthesize (params.map (·.lexeme))]) ++
        [parenthesize ("block" :: renderStmts body)]

def renderMethods (keyword : String) : List FunctionDecl → List String
  | [] => []
  | decl :: rest => decl.render keyword :: renderMethods keyword rest

def renderUses : List Expr → List String
  | [] => []
  | expr :: rest => parenthesize ["use", expr.render] :: renderUses rest

def ClassBody.render (head : List String) : ClassBody → String
  | ⟨traits, methods, classMethods⟩ =>
    parenthesize (head ++ renderUses traits ++ renderMethods "class" classMethods ++ renderMethods
      "method" methods)

def Stmt.render : Stmt → String
  | .expression value => parenthesize [";", value.render]
  | .print value => parenthesize ["print", value.render]
  | .variable name initial => parenthesize ("var" :: name.lexeme :: renderExpr? initial)
  | .block statements => parenthesize ("block" :: renderStmts statements)
  | .ifElse condition thenBranch elseBranch =>
    parenthesize ("if" :: condition.render :: thenBranch.render :: renderStmt? elseBranch)
  | .whileLoop condition body => parenthesize ["while", condition.render, body.render]
  | .forLoop initial condition increment body =>
    parenthesize ["for", renderInitial initial, renderClause condition,
      renderClause increment, body.render]
  | .jump _ kind => parenthesize [kind.word]
  | .function decl => decl.render "fun"
  | .returnValue _ value => parenthesize ("return" :: renderExpr? value)
  | .classDecl name none body => body.render ["class", name.lexeme]
  | .classDecl name (some superclass) body =>
    body.render ["class", name.lexeme, "<", superclass.render]
  | .traitDecl name body => body.render ["trait", name.lexeme]

def renderStmts : List Stmt → List String
  | [] => []
  | stmt :: rest => stmt.render :: renderStmts rest

def renderStmt? : Option Stmt → List String
  | none => []
  | some stmt => [stmt.render]

/-- The first clause of a `for`, written `nil` when it is absent. -/
def renderInitial : Option Stmt → String
  | none => "nil"
  | some stmt => stmt.render

end
end TraitScript
