import TraitScript.Token

/-!
# Syntax trees

Expressions and statements keep the tokens that errors point at. Each occurrence of a name that is
looked up carries an `id` of its own, so that what is found out about one occurrence never applies
to another with the same name.
-/

namespace TraitScript

inductive Literal where
  | number (value : Float)
  | string (text : String)
  | bool (value : Bool)
  | nil
  deriving DecidableEq

/-- The two ways to leave the body of a loop early. -/
inductive Jump where
  | breakLoop
  | continueLoop
  deriving DecidableEq, Repr

def Jump.word : Jump → String
  | breakLoop => "break"
  | continueLoop => "continue"

mutual

inductive Expr where
  | literal (value : Literal)
  /-- An expression in parentheses. -/
  | group (inner : Expr)
  | unary (operator : Token) (right : Expr)
  /-- Arithmetic, comparison, equality and the comma. -/
  | binary (left : Expr) (operator : Token) (right : Expr)
  /-- `and` and `or`, which may leave the right side alone. -/
  | logical (left : Expr) (operator : Token) (right : Expr)
  | conditional (condition thenBranch elseBranch : Expr)
  | variable (id : Nat) (name : Token)
  | assign (id : Nat) (name : Token) (value : Expr)
  /-- A call; `paren` is its closing parenthesis. -/
  | call (callee : Expr) (paren : Token) (arguments : List Expr)
  | function (decl : FunctionDecl)
  | get (object : Expr) (name : Token)
  | set (object : Expr) (name : Token) (value : Expr)
  | this (id : Nat) (keyword : Token)
  | super (id : Nat) (keyword method : Token)

/-- Parameters and body of a function, a method or a getter. -/
structure FunctionDecl where
  /-- Function expressions have no name. -/
  name : Option Token
  params : List Token
  body : List Stmt
  /-- Getters are declared without a parameter list. -/
  isGetter : Bool

structure ClassBody where
  /-- The names in `use` clauses. -/
  traits : List Expr
  methods : List FunctionDecl
  classMethods : List FunctionDecl

inductive Stmt where
  | expression (value : Expr)
  | print (value : Expr)
  | variable (name : Token) (initial : Option Expr)
  | block (statements : List Stmt)
  | ifElse (condition : Expr) (thenBranch : Stmt) (elseBranch : Option Stmt)
  | whileLoop (condition : Expr) (body : Stmt)
  | forLoop (initial : Option Stmt) (condition increment : Option Expr) (body : Stmt)
  | jump (keyword : Token) (kind : Jump)
  | function (decl : FunctionDecl)
  | returnValue (keyword : Token) (value : Option Expr)
  | classDecl (name : Token) (superclass : Option Expr) (body : ClassBody)
  | traitDecl (name : Token) (body : ClassBody)

end

instance : Inhabited Expr := ⟨.literal .nil⟩

instance : Inhabited Stmt := ⟨.block []⟩

instance : Inhabited FunctionDecl := ⟨none, [], [], false⟩

instance : Inhabited ClassBody := ⟨[], [], []⟩

def Expr.name? : Expr → Option Token
  | .variable _ name => some name
  | _ => none

/-- The name under which a method is stored. -/
def FunctionDecl.key (decl : FunctionDecl) : String :=
  match decl.name with
  | some name => name.lexeme
  | none => ""

/-- The method that a class runs on every new instance. -/
def initializerName : String := "init"

end TraitScript
