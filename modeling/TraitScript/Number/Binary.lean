/-!
# The exact value of a double

A double is read off its bits as a sign, a mantissa and a power of two, so that everything said
about numbers in texts and ranges is said in exact integer arithmetic.
-/

namespace TraitScript

/-- The value a double stands for: `mantissa * 2 ^ exponent` with a sign, an infinity, or no
number. -/
inductive Binary where
  | nan
  | infinite (negative : Bool)
  | finite (negative : Bool) (mantissa : Nat) (exponent : Int)
  deriving DecidableEq, Repr

namespace Binary

def twoTo (power : Nat) : Nat := Nat.pow 2 power

/-- Reads the sign, the eleven exponent bits and the fifty-two fraction bits. -/
def ofFloat (x : Float) : Binary :=
  let bits : Nat := x.toBits.toNat
  let negative := decide (twoTo 63 ≤ bits)
  let field : Nat := bits / twoTo 52 % twoTo 11
  let fraction : Nat := bits % twoTo 52
  if field = 2047 then
    if fraction = 0 then .infinite negative else .nan
  else if field = 0 then .finite negative fraction (-1074)
  else .finite negative (twoTo 52 + fraction) ((field : Int) - 1075)

def truncate (mantissa : Nat) (exponent : Int) : Nat :=
  if 0 ≤ exponent then mantissa * twoTo exponent.toNat else mantissa / twoTo (-exponent).toNat

def isIntegral (mantissa : Nat) (exponent : Int) : Bool :=
  0 ≤ exponent || mantissa % twoTo (-exponent).toNat == 0

def floor (negative : Bool) (mantissa : Nat) (exponent : Int) : Int :=
  let whole := truncate mantissa exponent
  if negative then (if isIntegral mantissa exponent then -whole else -whole - 1) else whole

def ceiling (negative : Bool) (mantissa : Nat) (exponent : Int) : Int :=
  -floor (!negative) mantissa exponent

end Binary
end TraitScript
