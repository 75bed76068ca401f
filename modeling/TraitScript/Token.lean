/-!
# Tokens

A token is a kind, the source text it was read from, and the line on which it ends. Numbers and
strings carry their value.
-/

namespace TraitScript

inductive Symbol where
  | leftParen
  | rightParen
  | leftBrace
  | rightBrace
  | comma
  | dot
  | minus
  | plus
  | semicolon
  | slash
  | star
  | question
  | colon
  | bang
  | bangEqual
  | equal
  | equalEqual
  | greater
  | greaterEqual
  | less
  | lessEqual
  deriving DecidableEq, Repr

namespace Symbol

def text : Symbol → String
  | leftParen => "("
  | rightParen => ")"
  | leftBrace => "\x7b"
  | rightBrace => "\x7d"
  | comma => ","
  | dot => "."
  | minus => "-"
  | plus => "+"
  | semicolon => ";"
  | slash => "/"
  | star => "*"
  | question => "?"
  | colon => ":"
  | bang => "!"
  | bangEqual => "!="
  | equal => "="
  | equalEqual => "=="
  | greater => ">"
  | greaterEqual => ">="
  | less => "<"
  | lessEqual => "<="

/-- The name in a token listing. -/
def name : Symbol → String
  | leftParen => "LEFT_PAREN"
  | rightParen => "RIGHT_PAREN"
  | leftBrace => "LEFT_BRACE"
  | rightBrace => "RIGHT_BRACE"
  | comma => "COMMA"
  | dot => "DOT"
  | minus => "MINUS"
  | plus => "PLUS"
  | semicolon => "SEMICOLON"
  | slash => "SLASH"
  | star => "STAR"
  | question => "QUESTION"
  | colon => "COLON"
  | bang => "BANG"
  | bangEqual => "BANG_EQUAL"
  | equal => "EQUAL"
  | equalEqual => "EQUAL_EQUAL"
  | greater => "GREATER"
  | greaterEqual => "GREATER_EQUAL"
  | less => "LESS"
  | lessEqual => "LESS_EQUAL"

/-- The symbol that a single character is. -/
def ofChar? : Char → Option Symbol
  | '(' => some leftParen
  | ')' => some rightParen
  | '\x7b' => some leftBrace
  | '\x7d' => some rightBrace
  | ',' => some comma
  | '.' => some dot
  | '-' => some minus
  | '+' => some plus
  | ';' => some semicolon
  | '/' => some slash
  | '*' => some star
  | '?' => some question
  | ':' => some colon
  | '!' => some bang
  | '=' => some equal
  | '>' => some greater
  | '<' => some less
  | _ => none

/-- The symbol that an equals sign turns this one into. -/
def withEqual? : Symbol → Option Symbol
  | bang => some bangEqual
  | equal => some equalEqual
  | greater => some greaterEqual
  | less => some lessEqual
  | _ => none

end Symbol

inductive Keyword where
  | andWord
  | breakWord
  | classWord
  | continueWord
  | elseWord
  | falseWord
  | funWord
  | forWord
  | ifWord
  | nilWord
  | orWord
  | printWord
  | returnWord
  | superWord
  | thisWord
  | traitWord
  | trueWord
  | useWord
  | varWord
  | whileWord
  deriving DecidableEq, Repr

namespace Keyword

def text : Keyword → String
  | andWord => "and"
  | breakWord => "break"
  | classWord => "class"
  | continueWord => "continue"
  | elseWord => "else"
  | falseWord => "false"
  | funWord => "fun"
  | forWord => "for"
  | ifWord => "if"
  | nilWord => "nil"
  | orWord => "or"
  | printWord => "print"
  | returnWord => "return"
  | superWord => "super"
  | thisWord => "this"
  | traitWord => "trait"
  | trueWord => "true"
  | useWord => "use"
  | varWord => "var"
  | whileWord => "while"

/-- The name in a token listing. -/
def name : Keyword → String
  | andWord => "AND"
  | breakWord => "BREAK"
  | classWord => "CLASS"
  | continueWord => "CONTINUE"
  | elseWord => "ELSE"
  | falseWord => "FALSE"
  | funWord => "FUN"
  | forWord => "FOR"
  | ifWord => "IF"
  | nilWord => "NIL"
  | orWord => "OR"
  | printWord => "PRINT"
  | returnWord => "RETURN"
  | superWord => "SUPER"
  | thisWord => "THIS"
  | traitWord => "TRAIT"
  | trueWord => "TRUE"
  | useWord => "USE"
  | varWord => "VAR"
  | whileWord => "WHILE"

def all : List Keyword :=
  [andWord, breakWord, classWord, continueWord, elseWord, falseWord, funWord, forWord, ifWord,
    nilWord, orWord,
    printWord, returnWord, superWord, thisWord, traitWord, trueWord, useWord, varWord, whileWord]

def ofText? (text : String) : Option Keyword := all.find? (·.text = text)

end Keyword

inductive Token.Kind where
  | symbol (s : Symbol)
  | keyword (k : Keyword)
  | identifier
  /-- A string literal, with the text between its quotes. -/
  | string (contents : String)
  | number (value : Float)
  | eof
  deriving DecidableEq

structure Token where
  kind : Token.Kind
  /-- The source text of the token; empty at the end of the source. -/
  lexeme : String
  line : Nat
  deriving DecidableEq

namespace Token

/-- The name of a kind in a token listing. -/
def Kind.name : Kind → String
  | .symbol s => s.name
  | .keyword k => k.name
  | .identifier => "IDENTIFIER"
  | .string _ => "STRING"
  | .number _ => "NUMBER"
  | .eof => "EOF"

def endOfSource (line : Nat) : Token := ⟨.eof, "", line⟩

def isSymbol (token : Token) (symbol : Symbol) : Bool :=
  match token.kind with
  | .symbol s => s == symbol
  | _ => false

def isKeyword (token : Token) (keyword : Keyword) : Bool :=
  match token.kind with
  | .keyword k => k == keyword
  | _ => false

def isIdentifier (token : Token) : Bool :=
  match token.kind with
  | .identifier => true
  | _ => false

def place (token : Token) : String :=
  match token.kind with
  | .eof => " at end"
  | _ => " at '" ++ token.lexeme ++ "'"

end Token
end TraitScript
