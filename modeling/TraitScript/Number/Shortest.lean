import TraitScript.Number.Binary

/-!
# The fewest decimal digits that name a double

Every real between the midpoints to the two neighbouring doubles reads back as the double; the
midpoints themselves do when the mantissa is even. Of the decimal grids `10 ^ g`, the coarsest one
with a point in that interval gives the fewest digits. If a grid has a point there, one of the two
grid points around the value is there too, so only these are tested.
-/

namespace TraitScript

/-- A positive decimal `coefficient * 10 ^ exponent`. -/
structure Decimal where
  coefficient : Nat
  exponent : Int
  deriving DecidableEq, Repr

/-- Which of two equally near grid points is taken. -/
inductive Tie where
  | up
  | even
  deriving DecidableEq, Repr

namespace Decimal

open Binary (twoTo)

def tenTo (power : Nat) : Nat := Nat.pow 10 power

/-- The reals that read back as a magnitude, in quarters of its last binary place. -/
structure Interval where
  low : Nat
  value : Nat
  high : Nat
  /-- The place value of one quarter is `2 ^ exponent`. -/
  exponent : Int
  /-- Whether the two ends read back too. -/
  closed : Bool

/-- Below a power of two the doubles lie twice as close, so the lower midpoint is nearer. -/
def Interval.ofBinary (mantissa : Nat) (exponent : Int) : Interval where
  low := if mantissa = twoTo 52 ∧ -1074 < exponent then 4 * mantissa - 1 else 4 * mantissa - 2
  value := 4 * mantissa
  high := 4 * mantissa + 2
  exponent := exponent - 2
  closed := mantissa % 2 == 0

/-- The factors that bring quarters and points of the grid `10 ^ g` to whole multiples of a common
unit. -/
def Interval.scale (i : Interval) (g : Int) : Nat × Nat :=
  (twoTo i.exponent.toNat * tenTo (-g).toNat, twoTo (-i.exponent).toNat * tenTo g.toNat)

/-- The point of the grid `10 ^ g` that reads back and lies nearest, if the grid has one. -/
def Interval.nearest? (tie : Tie) (i : Interval) (g : Int) : Option Nat :=
  let (quarter, step) := i.scale g
  let value := i.value * quarter
  let inside (point : Nat) : Bool :=
    if i.closed then i.low * quarter ≤ point * step && point * step ≤ i.high * quarter
    else i.low * quarter < point * step && point * step < i.high * quarter
  let below := value / step
  let rest := value % step
  match inside below, inside (below + 1) with
  | true, true =>
    if 2 * rest < step then some below
    else if step < 2 * rest then some (below + 1)
    else match tie with
      | .up => some (below + 1)
      | .even => if below % 2 = 0 then some below else some (below + 1)
  | true, false => some below
  | false, true => some (below + 1)
  | false, false => none

/-- An exponent `g` with the magnitude below `10 ^ g`. -/
def bound (mantissa : Nat) (exponent : Int) : Int :=
  let places : Int := exponent + mantissa.log2 + 2
  if 0 ≤ places then places / 3 + 1 else 3 * (places / 10) + 3

/-- The first grid with a point, going from coarse to fine; `steps` bounds the grids tried. -/
def search (tie : Tie) (i : Interval) : (steps : Nat) → Int → Decimal
  | 0, g => ⟨0, g⟩
  | steps + 1, g =>
    match i.nearest? tie g with
    | some point => ⟨point, g⟩
    | none => search tie i steps (g - 1)

/-- The shortest decimal that reads back as a positive magnitude, the nearest one of that length. A
double has at most seventeen significant digits, and the first grid is less than a hundred places
too coarse. -/
def shortest (tie : Tie) (mantissa : Nat) (exponent : Int) : Decimal :=
  search tie (.ofBinary mantissa exponent) 120 (bound mantissa exponent)

end Decimal
end TraitScript
