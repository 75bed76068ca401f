import TraitScript.Machine.Stop
import TraitScript.Value

/-!
# Operators on values

Arithmetic takes numbers; `+` also joins texts when one side is a string. Numbers, strings and
booleans are ordered among themselves, and anything can be compared for equality.
-/

namespace TraitScript

def Value.typeName : Value → String
  | .nil => "nil"
  | .bool _ => "bool"
  | .number _ => "number"
  | .string _ => "string"
  | .function _ => "function"
  | .native _ => "native"
  | .classValue _ => "class"
  | .object _ => "instance"
  | .traitValue _ => "trait"

def Value.ofLiteral : Literal → Value
  | .number value => .number value
  | .string text => .string text
  | .bool value => .bool value
  | .nil => .nil

namespace Operator

abbrev Result := Except RuntimeError.Cause Value

def unary (operator : Token.Kind) (right : Value) : Result :=
  match operator with
  | .symbol .minus =>
    match right with
    | .number x => .ok (.number (-x))
    | _ => .error .operandNotNumber
  | .symbol .bang => .ok (.bool !right.isTruthy)
  | _ => .error .invalidUnary

/-- Applies an operation that is defined on numbers only. -/
def arithmetic (left right : Value) (operation : Float → Float → Result) : Result :=
  match left, right with
  | .number a, .number b => operation a b
  | _, _ => .error .operandsNotNumbers

def add (left right : Value) : Result :=
  match left, right with
  | .number a, .number b => .ok (.number (a + b))
  | .string _, _ => .ok (.string (left.display ++ right.display))
  | _, .string _ => .ok (.string (left.display ++ right.display))
  | _, _ => .error .operandsNotAddable

def divide (a b : Float) : Result :=
  if b == 0 then .error .divisionByZero else .ok (.number (a / b))

/-- The order of two numbers, unless one of them is no number. -/
def compareNumbers (a b : Float) : Option Ordering :=
  if a < b then some .lt else if a == b then some .eq else if b < a then some .gt else none

/-- The order of two values of one ordered type. -/
def compare (left right : Value) : Except RuntimeError.Cause (Option Ordering) :=
  match left, right with
  | .number a, .number b => .ok (compareNumbers a b)
  | .string a, .string b => .ok (some (if a < b then .lt else if a = b then .eq else .gt))
  | .bool a, .bool b => .ok (some (Ord.compare a.toNat b.toNat))
  | _, _ => .error (if left.typeName = right.typeName then .notOrdered else .differentTypes)

/-- A comparison holds when the order of the two sides passes a test; sides without an order fail
it. -/
def ordered (left right : Value) (test : Ordering → Bool) : Result :=
  match compare left right with
  | .ok order => .ok (.bool (order.any test))
  | .error cause => .error cause

/-- The comma yields its right side. -/
def binary (operator : Token.Kind) (left right : Value) : Result :=
  match operator with
  | .symbol .comma => .ok right
  | .symbol .plus => add left right
  | .symbol .minus => arithmetic left right fun a b => .ok (.number (a - b))
  | .symbol .star => arithmetic left right fun a b => .ok (.number (a * b))
  | .symbol .slash => arithmetic left right divide
  | .symbol .greater => ordered left right (· == .gt)
  | .symbol .greaterEqual => ordered left right (· != .lt)
  | .symbol .less => ordered left right (· == .lt)
  | .symbol .lessEqual => ordered left right (· != .gt)
  | .symbol .equalEqual => .ok (.bool (left.same right))
  | .symbol .bangEqual => .ok (.bool !(left.same right))
  | _ => .error .invalidBinary

/-- Whether the left side of a logical operator decides its value; every operator but `or` counts as
`and`. -/
def isDecided (operator : Token.Kind) (left : Value) : Bool :=
  match operator with
  | .keyword .orWord => left.isTruthy
  | _ => !left.isTruthy

end Operator
end TraitScript
