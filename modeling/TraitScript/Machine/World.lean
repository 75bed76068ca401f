import TraitScript.Number.Binary

/-!
# The outside world

A run depends on the input it reads, on what the clock shows and on random numbers. It also depends
on the order in which the tables of a trait are walked: they are hashed with a seed of their own, so
any order may come up, and it decides which of several clashing names an error gives. All of it is
given beforehand, so that the same world always leads to the same run.
-/

namespace TraitScript

/-- The input still to be read, what each look at the clock shows, what each random pick brings, and
how tables are walked. -/
structure World where
  input : List UInt8 := []
  clock : Nat → Float := fun _ => 1
  random : Nat → Nat := fun _ => 0
  /-- How far back a name stands in the methods, or in the class methods, of the trait with an
  identity. -/
  order : (trait : Nat) → (ofClass : Bool) → (name : String) → Nat := fun _ _ _ => 0
  clockReadings : Nat := 0
  randomPicks : Nat := 0

namespace World

/-- A clock that starts at a time and shows a little more at every look. -/
def clockFrom (seconds : Float) (reading : Nat) : Float := seconds + Float.ofNat reading / 100000

/-- A sequence of numbers of 64 bits that starts from a seed and shows no pattern. -/
def randomFrom (seed index : Nat) : Nat :=
  let mixed := (seed + (index + 1) * 0x9e3779b97f4a7c15) % Binary.twoTo 64
  let mixed := (mixed ^^^ (mixed >>> 30)) * 0xbf58476d1ce4e5b9 % Binary.twoTo 64
  let mixed := (mixed ^^^ (mixed >>> 27)) * 0x94d049bb133111eb % Binary.twoTo 64
  mixed ^^^ (mixed >>> 31)

end World
end TraitScript
