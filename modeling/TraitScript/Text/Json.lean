import TraitScript.Text.Quoted

/-!
# JSON documents

A document is written compactly on one line, or indented by two blanks a level.
-/

namespace TraitScript

inductive Json where
  | text (value : String)
  /-- A number that is already written. -/
  | number (written : String)
  | array (items : List Json)
  | object (fields : List (String × Json))

namespace Json

mutual

/-- Everything on one line without blanks. -/
def compact : Json → String
  | .text value => Quoted.json value
  | .number written => written
  | .array items => "[" ++ compactItems items ++ "]"
  | .object fields => "\x7b" ++ compactFields fields ++ "\x7d"

def compactItems : List Json → String
  | [] => ""
  | [item] => item.compact
  | item :: items => item.compact ++ "," ++ compactItems items

def compactFields : List (String × Json) → String
  | [] => ""
  | [(name, value)] => Quoted.json name ++ ":" ++ value.compact
  | (name, value) :: fields =>
    Quoted.json name ++ ":" ++ value.compact ++ "," ++ compactFields fields

end

/-- A line break followed by the blanks of a level. -/
def lineBreak (level : Nat) : String := "\n" ++ String.ofList (List.replicate (2 * level) ' ')

mutual

/-- One item or field a line, indented by two blanks a level. -/
def pretty (level : Nat) : Json → String
  | .text value => Quoted.json value
  | .number written => written
  | .array [] => "[]"
  | .array (item :: items) =>
    "[" ++ prettyItems (level + 1) (item :: items) ++ lineBreak level ++ "]"
  | .object [] => "\x7b\x7d"
  | .object (field :: fields) =>
    "\x7b" ++ prettyFields (level + 1) (field :: fields) ++ lineBreak level ++ "\x7d"

def prettyItems (level : Nat) : List Json → String
  | [] => ""
  | [item] => lineBreak level ++ item.pretty level
  | item :: items => lineBreak level ++ item.pretty level ++ "," ++ prettyItems level items

def prettyFields (level : Nat) : List (String × Json) → String
  | [] => ""
  | [(name, value)] => lineBreak level ++ Quoted.json name ++ ": " ++ value.pretty level
  | (name, value) :: fields =>
    lineBreak level ++ Quoted.json name ++ ": " ++ value.pretty level ++ "," ++
      prettyFields level fields

end

end Json
end TraitScript
