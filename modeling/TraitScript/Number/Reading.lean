/-!
# Reading numbers

Digits with a decimal point are read as the nearest double. `Number.ofText?` reads the full written
form: a sign, an exponent, and the names of the values that are not finite.
-/

namespace TraitScript.Number

/-- The value of ASCII digits, most significant first. -/
def natOfDigits (digits : List Char) : Nat :=
  digits.foldl (fun total digit => 10 * total + (digit.toNat - '0'.toNat)) 0

/-- The double nearest to `whole.fraction`. -/
def ofDigits (whole fraction : List Char) : Float :=
  Float.ofScientific (natOfDigits (whole ++ fraction)) true fraction.length

/-- The double nearest to `whole.fraction * 10 ^ power`. -/
def ofScientific (whole fraction : List Char) (power : Int) : Float :=
  let shift : Int := power - fraction.length
  Float.ofScientific (natOfDigits (whole ++ fraction)) (decide (shift < 0)) shift.natAbs

/-- An optional sign in front of a text. -/
def splitSign : List Char → Bool × List Char
  | '-' :: rest => (true, rest)
  | '+' :: rest => (false, rest)
  | text => (false, text)

/-- The power after an exponent mark, with at least one digit. -/
def power? (text : List Char) : Option Int :=
  let (negative, digits) := splitSign text
  if digits.isEmpty || !digits.all Char.isDigit then none
  else
    let value : Int := natOfDigits digits
    some (if negative then -value else value)

/-- A magnitude: digits on at least one side of an optional point, then an optional exponent. -/
def magnitude? (text : List Char) : Option Float :=
  let whole := text.takeWhile Char.isDigit
  let afterWhole := text.dropWhile Char.isDigit
  let (fraction, afterFraction) := match afterWhole with
    | '.' :: rest => (rest.takeWhile Char.isDigit, rest.dropWhile Char.isDigit)
    | rest => ([], rest)
  if whole.isEmpty && fraction.isEmpty then none
  else match afterFraction with
    | [] => some (ofDigits whole fraction)
    | mark :: rest =>
      if mark = 'e' || mark = 'E' then (power? rest).map (ofScientific whole fraction) else none

/-- Reads a written number, with its sign. -/
def ofText? (text : String) : Option Float :=
  let (negative, rest) := splitSign text.toList
  let name := rest.map Char.toLower
  let value :=
    if name = "inf".toList || name = "infinity".toList then some (Float.ofBits 0x7ff0000000000000)
    else if name = "nan".toList then some (Float.ofBits 0x7ff8000000000000)
    else magnitude? rest
  value.map fun x => if negative then -x else x

end TraitScript.Number
