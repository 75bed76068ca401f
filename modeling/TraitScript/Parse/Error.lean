import TraitScript.Diagnostic
import TraitScript.Tree

/-!
# Syntax errors

A syntax error is a cause and the token it is found at. The wording of every cause stands in
`Cause.message`.
-/

namespace TraitScript

inductive NameRole where
  | classRole
  | superclassRole
  | traitRole
  | methodRole
  | functionRole
  | parameterRole
  | variableRole
  | propertyRole
  | superclassMethodRole
  deriving DecidableEq, Repr

def NameRole.text : NameRole → String
  | classRole => "class name"
  | superclassRole => "superclass name"
  | traitRole => "trait name"
  | methodRole => "method name"
  | functionRole => "function name"
  | parameterRole => "parameter name"
  | variableRole => "variable name"
  | propertyRole => "property name after '.'"
  | superclassMethodRole => "superclass method name"

inductive Position where
  | beforeClassBody
  | beforeTraitBody
  | beforeFunctionBody
  | beforeMethodBody
  | afterClassBody
  | afterTraitBody
  | afterBlock
  | afterTraitList
  | afterVariable
  | afterLoopCondition
  | afterPrinted
  | afterExpression
  | afterJump (kind : Jump)
  | afterReturned
  | afterMethodName
  | afterFunctionName
  | afterFor
  | afterIf
  | afterWhile
  | afterFun
  | afterParameters
  | afterClauses
  | afterIfCondition
  | afterWhileCondition
  | afterArguments
  | afterThenBranch
  | afterSuper
  deriving DecidableEq, Repr

def Position.text : Position → String
  | beforeClassBody => "before class body"
  | beforeTraitBody => "before trait body"
  | beforeFunctionBody => "before function body"
  | beforeMethodBody => "before method body"
  | afterClassBody => "after class body"
  | afterTraitBody => "after trait body"
  | afterBlock => "after block"
  | afterTraitList => "after trait list"
  | afterVariable => "after variable declaration"
  | afterLoopCondition => "after loop condition"
  | afterPrinted => "after value"
  | afterExpression => "after expression"
  | afterJump kind => "after '" ++ kind.word ++ "'"
  | afterReturned => "after return value"
  | afterMethodName => "after method name"
  | afterFunctionName => "after function name"
  | afterFor => "after 'for'"
  | afterIf => "after 'if'"
  | afterWhile => "after 'while'"
  | afterFun => "after 'fun'"
  | afterParameters => "after parameters"
  | afterClauses => "after for clauses"
  | afterIfCondition => "after if condition"
  | afterWhileCondition => "after condition"
  | afterArguments => "after arguments"
  | afterThenBranch => "after then branch of conditional expression"
  | afterSuper => "after 'super'"

namespace ParseError

inductive Cause where
  | missingName (role : NameRole)
  | missingSymbol (symbol : Symbol) (position : Position)
  | missingExpression
  /-- A binary operator without its left side. -/
  | missingLeftOperand
  /-- Something follows a single expression. -/
  | trailingTokens
  | invalidTarget
  | tooManyParameters
  | tooManyArguments
  | jumpOutsideLoop (kind : Jump)
  deriving DecidableEq, Repr

def Cause.message : Cause → String
  | missingName role => "Expected " ++ role.text ++ "."
  | missingSymbol symbol position => "Expected '" ++ symbol.text ++ "' " ++ position.text ++ "."
  | missingExpression => "Expected expression."
  | missingLeftOperand => "Expected expression before operator."
  | trailingTokens => "Expected end of expression."
  | invalidTarget => "Invalid assignment target."
  | tooManyParameters => "Can't have more than 255 parameters."
  | tooManyArguments => "Can't have more than 255 arguments."
  | jumpOutsideLoop kind => "Can't use '" ++ kind.word ++ "' outside of a loop."

end ParseError

structure ParseError where
  cause : ParseError.Cause
  /-- The token at which the error is reported. -/
  token : Token
  deriving DecidableEq

def ParseError.diagnostic (error : ParseError) : Diagnostic :=
  .parse error.cause.message error.token.place error.token.line

end TraitScript
