import TraitScript.Text.Visible

/-!
# Quoted text

Two ways to put a text between double quotes: as a JSON string, and as the inspected form of a
string value.
-/

namespace TraitScript.Quoted

def hexadecimal (n : Nat) : List Char := Nat.toDigits 16 n

/-- A character inside a JSON string: quotes, backslashes and control characters are escaped. -/
def jsonChar (c : Char) : List Char :=
  match c with
  | '"' => ['\\', '"']
  | '\\' => ['\\', '\\']
  | '\x08' => ['\\', 'b']
  | '\x0c' => ['\\', 'f']
  | '\n' => ['\\', 'n']
  | '\r' => ['\\', 'r']
  | '\t' => ['\\', 't']
  | c =>
    if c.toNat < 0x20 then
      let digits := hexadecimal c.toNat
      ['\\', 'u'] ++ List.replicate (4 - digits.length) '0' ++ digits
    else [c]

def json (text : String) : String :=
  String.ofList ('"' :: (text.toList.flatMap jsonChar ++ ['"']))

/-- A character inside an inspected string; hidden characters without a short form are written by
their number. -/
def inspectedChar (c : Char) : List Char :=
  match c with
  | '"' => ['\\', '"']
  | '\\' => ['\\', '\\']
  | '\n' => ['\\', 'n']
  | '\r' => ['\\', 'r']
  | '\t' => ['\\', 't']
  | '\x00' => ['\\', '0']
  | c =>
    if Visible.isVisible c then [c] else ['\\', 'u', '\x7b'] ++ hexadecimal c.toNat ++ ['\x7d']

def inspected (text : String) : String :=
  String.ofList ('"' :: (text.toList.flatMap inspectedChar ++ ['"']))

end TraitScript.Quoted
