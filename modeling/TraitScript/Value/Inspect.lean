import TraitScript.Text.Quoted
import TraitScript.Value

/-!
# Inspecting values

The form in which a host shows a value to a person: strings are quoted, functions list their
properties.
-/

namespace TraitScript

/-- A value as text, with strings in quotes. -/
def Value.inspect : Value → String
  | .string text => Quoted.inspected text
  | value => value.display

def inspectBool (value : Bool) : String := if value then "true" else "false"

def Closure.inspect (closure : Closure) : String :=
  let name := match closure.name? with
    | some name => "Some(" ++ Quoted.inspected name ++ ")"
    | none => "None"
  "Function \x7b name: " ++ name ++ ", arity: " ++ Decimal.digits closure.arity ++
    ", is_initializer: " ++ inspectBool closure.isInitializer ++
    ", is_getter: " ++ inspectBool closure.isGetter ++ " \x7d"

def NativeRef.inspect (ref : NativeRef) : String :=
  "NativeFunction \x7b name: " ++ Quoted.inspected ref.name ++ ", arity: " ++ Decimal.digits
    ref.arity ++ " \x7d"

namespace MethodTable

/-- Puts a name and number where it belongs among others sorted by name. -/
def insertSorted (entry : String × Nat) : List (String × Nat) → List (String × Nat)
  | [] => [entry]
  | other :: rest =>
    if other.1 < entry.1 then other :: insertSorted entry rest else entry :: other :: rest

/-- The names and arities of a table, sorted by name. -/
def arities (table : MethodTable) : List (String × Nat) :=
  (table.entries.map fun (name, method) => (name, method.arity)).foldr insertSorted []

end MethodTable
end TraitScript
