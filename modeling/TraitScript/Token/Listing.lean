import TraitScript.Number.Written
import TraitScript.Text.Json
import TraitScript.Token

/-!
# Token listings

A token is listed as its kind, lexeme and literal, or as a JSON object.
-/

namespace TraitScript.Token

/-- The value of a literal token as text, `null` for all others. -/
def literal (token : Token) : String :=
  match token.kind with
  | .string contents => contents
  | .number value => Number.literal value
  | _ => "null"

def display (token : Token) : String :=
  token.kind.name ++ " " ++ token.lexeme ++ " " ++ token.literal

def Kind.json : Kind → Json
  | .string contents => .object [("STRING", .text contents)]
  | .number value => .object [("NUMBER", .number (Number.json value))]
  | kind => .text kind.name

def json (token : Token) : Json :=
  .object [("token_type", token.kind.json), ("lexeme", .text token.lexeme),
    ("line", .number (Decimal.digits token.line))]

end TraitScript.Token
