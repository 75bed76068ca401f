import TraitScript.Machine.Stop
import TraitScript.Number.Binary
import TraitScript.Text.Utf8
import TraitScript.Value

/-!
# Native functions

A native function answers its arguments with an action: a sequence of steps in which it may write,
read input, ask for the time or a random number, and call back into the script. The three standard
functions are `clock`, `randint` and `input`; a host can add others.
-/

namespace TraitScript

/-- What a native function does, step by step. -/
inductive Action where
  | done (value : Value)
  | fail (cause : RuntimeError.Cause)
  | write (text : String) (next : Action)
  /-- Reads a line of input with its line ending; there is none at the end of input. -/
  | readLine (next : Option String → Action)
  /-- The seconds since the beginning of 1970. -/
  | readClock (next : Float → Action)
  /-- Any integer of a range with both ends, the lower one first. -/
  | pick (low high : Int) (next : Int → Action)
  /-- Calls a value; errors in the call itself are located at the line. -/
  | call (callee : Value) (line : Nat) (arguments : List Value) (next : Value → Action)

structure Native where
  name : String
  arity : Nat
  body : List Value → Action

namespace Native

def leastInteger : Int := -(Binary.twoTo 63 : Int)

def greatestInteger : Int := (Binary.twoTo 63 : Int) - 1

def clamp (n : Int) : Int :=
  if n < leastInteger then leastInteger else if greatestInteger < n then greatestInteger else n

/-- The least 64-bit integer not below a number; what is no number counts as zero. -/
def lowerBound (x : Float) : Int :=
  match Binary.ofFloat x with
  | .nan => 0
  | .infinite negative => if negative then leastInteger else greatestInteger
  | .finite negative mantissa exponent => clamp (Binary.ceiling negative mantissa exponent)

/-- The greatest 64-bit integer not above a number; what is no number counts as zero. -/
def upperBound (x : Float) : Int :=
  match Binary.ofFloat x with
  | .nan => 0
  | .infinite negative => if negative then leastInteger else greatestInteger
  | .finite negative mantissa exponent => clamp (Binary.floor negative mantissa exponent)

/-- A line without the line feeds and carriage returns at its end. -/
def trimLine (line : String) : String :=
  String.ofList (line.toList.reverse.dropWhile fun c => c = '\n' || c = '\r').reverse

def clock : Native where
  name := "clock"
  arity := 0
  body _ := .readClock fun seconds => .done (.number seconds)

def randint : Native where
  name := "randint"
  arity := 2
  body
    | [.number a, .number b] =>
      let low := lowerBound a
      let high := upperBound b
      if high < low then .fail (.randintRange low high)
      else .pick low high fun n => .done (.number (Float.ofInt n))
    | _ => .fail .randintArguments

def input : Native where
  name := "input"
  arity := 1
  body
    | [.string prompt] =>
      .write prompt <| .readLine fun
        | some line => .done (.string (trimLine line))
        | none => .done .nil
    | _ => .fail .inputArgument

/-- The functions every script can use. -/
def standard : List Native := [clock, randint, input]

end Native
end TraitScript
