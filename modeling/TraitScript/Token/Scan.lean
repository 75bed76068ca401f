import TraitScript.Diagnostic
import TraitScript.Number.Reading
import TraitScript.Text.Utf8

/-!
# Scanning

The source is a list of bytes. `munch` takes the longest piece at its front: blank space, a comment,
a token, or a fault. `scan` goes from piece to piece and lists the tokens and faults with their
spans; the last item is the end of the source. The line of an item is one plus the number of line
breaks before its end.
-/

namespace TraitScript

inductive LexError where
  | unexpectedByte (byte : UInt8)
  | strayCommentEnd
  | unclosedComment
  | unclosedString
  | notUtf8
  deriving DecidableEq, Repr

namespace LexError

/-- A byte that starts no token is shown as the character with its number. -/
def message : LexError → String
  | unexpectedByte byte => "Unexpected character: " ++ String.singleton (Char.ofUInt8 byte)
  | strayCommentEnd => "Unexpected end of comment outside block comment."
  | unclosedComment => "Unterminated block comment at end of file."
  | unclosedString => "Unterminated string."
  | notUtf8 => "Invalid UTF-8 in source."

def diagnostic (error : LexError) (line : Nat) : Diagnostic := .lex error.message line

end LexError

abbrev Source := List UInt8

namespace Scan

/-! ### Bytes -/

@[match_pattern] abbrev newline : UInt8 := 10
@[match_pattern] abbrev quote : UInt8 := 34
@[match_pattern] abbrev star : UInt8 := 42
@[match_pattern] abbrev point : UInt8 := 46
@[match_pattern] abbrev slash : UInt8 := 47
@[match_pattern] abbrev equalSign : UInt8 := 61

/-- Blank space: line feed, carriage return, tab and blank. -/
def isBlank (byte : UInt8) : Bool := byte == newline || byte == 13 || byte == 9 || byte == 32

def isDigit (byte : UInt8) : Bool := 48 ≤ byte && byte ≤ 57

/-- Letters of the English alphabet and the underscore start a word. -/
def isLetter (byte : UInt8) : Bool :=
  (97 ≤ byte && byte ≤ 122) || (65 ≤ byte && byte ≤ 90) || byte == 95

def isWordByte (byte : UInt8) : Bool := isLetter byte || isDigit byte

/-- How many bytes at the front satisfy a test. -/
def run (test : UInt8 → Bool) (bytes : List UInt8) : Nat := (bytes.takeWhile test).length

/-! ### Munching one piece -/

/-- What a piece of the source looks like. -/
inductive Shape where
  | trivia
  | symbol (s : Symbol)
  | word
  | number
  | string
  | fault (cause : LexError)
  deriving DecidableEq, Repr

/-- A piece: its shape and how many bytes it has after its first. -/
structure Piece where
  shape : Shape
  extra : Nat
  deriving DecidableEq, Repr

/-- How far a block comment reaches whose opening is already taken; comments nest. -/
def commentLength : (depth : Nat) → List UInt8 → Option Nat
  | _, [] => none
  | depth, star :: slash :: rest =>
    if depth ≤ 1 then some 2 else (commentLength (depth - 1) rest).map (· + 2)
  | depth, slash :: star :: rest => (commentLength (depth + 1) rest).map (· + 2)
  | depth, _ :: rest => (commentLength depth rest).map (· + 1)

/-- A string literal whose opening quote is taken ends with the next quote. -/
def munchString (rest : List UInt8) : Piece :=
  let contents := run (· != quote) rest
  if contents = rest.length then ⟨.fault .unclosedString, rest.length⟩ else ⟨.string, contents + 1⟩

/-- Digits, and a point with digits after it. -/
def munchNumber (rest : List UInt8) : Piece :=
  let whole := run isDigit rest
  match rest.drop whole with
  | point :: digit :: after =>
    if isDigit digit then ⟨.number, whole + 2 + run isDigit after⟩ else ⟨.number, whole⟩
  | _ => ⟨.number, whole⟩

/-- A slash starts a comment or stands for itself. -/
def munchSlash : List UInt8 → Piece
  | slash :: rest => ⟨.trivia, 1 + run (· != newline) rest⟩
  | star :: rest =>
    match commentLength 1 rest with
    | some length => ⟨.trivia, 1 + length⟩
    | none => ⟨.fault .unclosedComment, 1 + rest.length⟩
  | _ => ⟨.symbol .slash, 0⟩

/-- A symbol, together with an equals sign where that makes a longer one. -/
def munchSymbol (symbol : Symbol) (rest : List UInt8) : Piece :=
  match symbol.withEqual?, rest with
  | some longer, equalSign :: _ => ⟨.symbol longer, 1⟩
  | _, _ => ⟨.symbol symbol, 0⟩

def munch (first : UInt8) (rest : List UInt8) : Piece :=
  if isBlank first then ⟨.trivia, 0⟩
  else if isDigit first then munchNumber rest
  else if isLetter first then ⟨.word, run isWordByte rest⟩
  else if first = quote then munchString rest
  else if first = slash then munchSlash rest
  else if first = star ∧ rest.head? = some slash then ⟨.fault .strayCommentEnd, 1⟩
  else match Symbol.ofChar? (Char.ofUInt8 first) with
    | some symbol => munchSymbol symbol rest
    | none => ⟨.fault (.unexpectedByte first), 0⟩

/-! ### Items -/

/-- What stands at a span of the source. -/
inductive Finding where
  | token (kind : Token.Kind) (lexeme : String)
  | error (cause : LexError)
  deriving DecidableEq

/-- A token or fault with its span, from `start` up to `stop`, and its line. -/
structure Item where
  start : Nat
  stop : Nat
  line : Nat
  finding : Finding
  deriving DecidableEq

def Item.token? (item : Item) : Option Token :=
  match item.finding with
  | .token kind lexeme => some ⟨kind, lexeme, item.line⟩
  | .error _ => none

def Item.error? (item : Item) : Option Diagnostic :=
  match item.finding with
  | .token .. => none
  | .error cause => some (cause.diagnostic item.line)

def wordKind (lexeme : String) : Token.Kind :=
  match Keyword.ofText? lexeme with
  | some keyword => .keyword keyword
  | none => .identifier

def numberValue (lexeme : String) : Float :=
  let whole := lexeme.toList.takeWhile Char.isDigit
  let fraction := (lexeme.toList.dropWhile Char.isDigit).drop 1
  Number.ofDigits whole fraction

def unquote (lexeme : String) : String := String.ofList (lexeme.toList.drop 1).dropLast

/-- The finding for a lexeme of a shape; blank space and comments are none. -/
def Shape.finding? (lexeme : String) : Shape → Option Finding
  | .trivia => none
  | .symbol s => some (.token (.symbol s) lexeme)
  | .word => some (.token (wordKind lexeme) lexeme)
  | .number => some (.token (.number (numberValue lexeme)) lexeme)
  | .string => some (.token (.string (unquote lexeme)) lexeme)
  | .fault cause => some (.error cause)

/-- What the bytes of a piece stand for; a token must be text. -/
def findingOf (shape : Shape) (bytes : List UInt8) : Option Finding :=
  match shape with
  | .trivia => none
  | .fault cause => some (.error cause)
  | shape =>
    match Utf8.decode? bytes with
    | some lexeme => shape.finding? lexeme
    | none => some (.error .notUtf8)

/-- The items from an offset on. `bound` is at least the number of bytes left, and every piece takes
one or more. -/
def itemsFrom : (bound start line : Nat) → List UInt8 → List Item
  | 0, start, line, _ => [⟨start, start, line, .token .eof ""⟩]
  | _, start, line, [] => [⟨start, start, line, .token .eof ""⟩]
  | bound + 1, start, line, first :: rest =>
    let piece := munch first rest
    let bytes := first :: rest.take piece.extra
    let stop := start + 1 + piece.extra
    let endLine := line + bytes.count newline
    match findingOf piece.shape bytes with
    | some finding =>
      ⟨start, stop, endLine, finding⟩ :: itemsFrom bound stop endLine (rest.drop piece.extra)
    | none => itemsFrom bound stop endLine (rest.drop piece.extra)

end Scan

open Scan

/-- The tokens and faults of a source in order, the end of the source last. -/
def scan (source : Source) : List Item := itemsFrom source.length 0 1 source

/-- The tokens of a source without its end, the token that marks the end, and the faults. -/
structure Scanned where
  tokens : List Token
  last : Token
  errors : List Diagnostic

def Scanned.ofItems (items : List Item) : Scanned :=
  let tokens := items.filterMap Item.token?
  { tokens := tokens.dropLast
    last := tokens.getLast?.getD (.endOfSource 1)
    errors := items.filterMap Item.error? }

def Scanned.ofSource (source : Source) : Scanned := .ofItems (scan source)

def Scanned.all (scanned : Scanned) : List Token := scanned.tokens ++ [scanned.last]

end TraitScript
