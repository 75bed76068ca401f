import TraitScript.Number.Shortest

/-!
# How numbers are written

Four forms of one double: the text a script prints, the text inside a written tree, the literal of a
token listing, and the JSON number of a token listing.
-/

namespace TraitScript.Decimal

def digits (n : Nat) : String := String.ofList (Nat.toDigits 10 n)

def zeros (count : Nat) : String := String.ofList (List.replicate count '0')

/-- All digits with a point where one is needed and no exponent. -/
def positional (d : Decimal) : String :=
  let text := Nat.toDigits 10 d.coefficient
  if 0 ≤ d.exponent then String.ofList text ++ zeros d.exponent.toNat
  else
    let places := (-d.exponent).toNat
    if places < text.length then
      String.ofList (text.take (text.length - places)) ++ "." ++
        String.ofList (text.drop (text.length - places))
    else "0." ++ zeros (places - text.length) ++ String.ofList text

/-- The place of the first digit, as a power of ten. -/
def magnitude (d : Decimal) : Int :=
  d.exponent + (Nat.toDigits 10 d.coefficient).length - 1

/-- One digit, the others after a point, and a signed power of ten. -/
def scientific (d : Decimal) : String :=
  let text := Nat.toDigits 10 d.coefficient
  let fraction := if text.length ≤ 1 then "" else "." ++ String.ofList (text.drop 1)
  let power := d.magnitude
  let sign := if power < 0 then "-" else "+"
  String.ofList (text.take 1) ++ fraction ++ "e" ++ sign ++ digits power.natAbs

end TraitScript.Decimal

namespace TraitScript.Number

open Decimal (shortest digits)

def sign (negative : Bool) : String := if negative then "-" else ""

def infinity (negative : Bool) : String := sign negative ++ "inf"

/-- Shortest digits without an exponent; of two equally near ones the larger. -/
def plain (negative : Bool) (mantissa : Nat) (exponent : Int) : String :=
  sign negative ++ (shortest .up mantissa exponent).positional

/-- What a script prints: integral values exactly, zero without a sign, others in shortest
digits. -/
def display (x : Float) : String :=
  match Binary.ofFloat x with
  | .nan => "NaN"
  | .infinite negative => infinity negative
  | .finite negative mantissa exponent =>
    if Binary.isIntegral mantissa exponent then
      sign (negative && mantissa != 0) ++ digits (Binary.truncate mantissa exponent)
    else plain negative mantissa exponent

/-- A number inside a written tree: integral values exactly with one decimal place, zero with its
sign. -/
def inTree (x : Float) : String :=
  match Binary.ofFloat x with
  | .nan => "NaN"
  | .infinite negative => infinity negative
  | .finite negative mantissa exponent =>
    if Binary.isIntegral mantissa exponent then
      sign negative ++ digits (Binary.truncate mantissa exponent) ++ ".0"
    else plain negative mantissa exponent

/-- The literal of a number token: integral values below `2 ^ 63` exactly with one decimal place,
all others in shortest digits padded with zeros. -/
def literal (x : Float) : String :=
  match Binary.ofFloat x with
  | .nan => "NaN"
  | .infinite negative => infinity negative
  | .finite negative mantissa exponent =>
    if Binary.isIntegral mantissa exponent &&
        Binary.truncate mantissa exponent < Binary.twoTo 63 then
      sign (negative && mantissa != 0) ++ digits (Binary.truncate mantissa exponent) ++ ".0"
    else plain negative mantissa exponent

/-- The JSON number: shortest digits, of two equally near ones the even; an exponent below `10 ^ -5`
and from `10 ^ 16` on. JSON has no number for the values that are not finite. -/
def json (x : Float) : String :=
  match Binary.ofFloat x with
  | .nan | .infinite _ => "null"
  | .finite negative mantissa exponent =>
    if mantissa = 0 then sign negative ++ "0.0"
    else
      let d := shortest .even mantissa exponent
      let power := d.magnitude
      if -5 ≤ power ∧ power < 16 then
        sign negative ++ d.positional ++ (if 0 ≤ d.exponent then ".0" else "")
      else sign negative ++ d.scientific

end TraitScript.Number
