import TraitScript.Machine.Native
import TraitScript.Proofs.Number.Rounding

/-!
# Random whole numbers in a range

The bounds of a range are doubles. They are taken to the nearest 64-bit integers inside the range,
an integer between these is picked, and the integer becomes a double again. As no double lies
between an integer and the double it becomes, the result lies between the bounds where the integer
does. Bounds beyond the 64-bit integers count as the outermost of these, and there the result can
lie outside the range.
-/

namespace TraitScript

namespace Binary

/-! ### Integers -/

theorem Faithful.signed {n mantissa : Nat} {exponent : Int} (h : Faithful n mantissa exponent)
    (negative' : Bool) {mantissa' : Nat} {exponent' : Int} (h' : Canonical mantissa' exponent') :
    ((n : ℚ) ≤ value negative' mantissa' exponent' →
      magnitude mantissa exponent ≤ value negative' mantissa' exponent') ∧
      (value negative' mantissa' exponent' ≤ n →
        value negative' mantissa' exponent' ≤ magnitude mantissa exponent) := by
  cases negative' with
  | false => exact ⟨h.above h', h.below h'⟩
  | true =>
      have hn : (0 : ℚ) ≤ n := Nat.cast_nonneg n
      have hvalue := magnitude_nonneg mantissa' exponent'
      have hvalue' := magnitude_nonneg mantissa exponent
      change ((n : ℚ) ≤ -magnitude mantissa' exponent' → _ ≤ -magnitude mantissa' exponent') ∧
        (-magnitude mantissa' exponent' ≤ n → -magnitude mantissa' exponent' ≤ _)
      refine ⟨fun hle => ?_, fun _ => by linarith⟩
      have hzero := h.above h' (by linarith)
      linarith

/-- An integer becomes a double that stands for an integer, and no other double lies between the
two. -/
theorem ofFloat_ofInt {n : Int} (hn : n.natAbs < 2 ^ 64) :
    ∃ negative mantissa exponent, ofFloat (Float.ofInt n) = .finite negative mantissa exponent ∧
    ∃ z : Int, value negative mantissa exponent = z ∧ ∀ {x : Float} {v : ℚ},
      (ofFloat x).value? = some v → ((n : ℚ) ≤ v → z ≤ v) ∧ (v ≤ n → v ≤ z) := by
  suffices h : ∃ negative mantissa exponent, ofFloat (Float.ofInt n) =
      .finite negative mantissa exponent ∧
      ∃ z : Int, value negative mantissa exponent = z ∧
        ∀ (negative' : Bool) {mantissa' : Nat} {exponent' : Int}, Canonical mantissa' exponent' →
        ((n : ℚ) ≤ value negative' mantissa' exponent' → z ≤ value negative' mantissa' exponent') ∧
          (value negative' mantissa' exponent' ≤ n → value negative' mantissa' exponent' ≤ z) by
    obtain ⟨negative, mantissa, exponent, hfloat, z, hz, hnext⟩ := h
    refine ⟨negative, mantissa, exponent, hfloat, z, hz, fun {x v} hx => ?_⟩
    obtain ⟨negative', mantissa', exponent', hx', rfl⟩ := exists_finite_of_value? hx
    exact hnext negative' (canonical_ofFloat hx')
  cases n with
  | ofNat n =>
      obtain ⟨mantissa, exponent, hfloat, hfaithful⟩ := exists_faithful hn
      obtain ⟨z, hz⟩ := hfaithful.whole
      refine ⟨false, mantissa, exponent, hfloat, z, hz, fun negative' {_ _} h' => ?_⟩
      have hsigned := hfaithful.signed negative' h'
      rw [hz] at hsigned
      exact hsigned
  | negSucc n =>
      obtain ⟨mantissa, exponent, hfloat, hfaithful⟩ := @exists_faithful (n + 1) hn
      obtain ⟨z, hz⟩ := hfaithful.whole
      refine ⟨true, mantissa, exponent, ofFloat_neg hfloat, -z, ?_,
        fun negative' {mantissa' exponent'} h' => ?_⟩
      · change -magnitude mantissa exponent = _
        rw [hz]
        push_cast
        rfl
      · obtain ⟨habove, hbelow⟩ := hfaithful.signed (!negative') h'
        rw [value_not, hz] at habove hbelow
        push_cast [Int.cast_negSucc] at habove hbelow ⊢
        exact ⟨fun hle => by linarith [hbelow (by linarith)],
                               fun hle => by linarith [habove (by linarith)]⟩

theorem ofFloat_greatestInteger :
    ofFloat (Float.ofInt (2 ^ 63 - 1)) = .finite false (2 ^ 52) 11 := by
  decide +kernel

theorem ofFloat_leastInteger : ofFloat (Float.ofInt (-2 ^ 63)) = .finite true (2 ^ 52) 11 := by
  decide +kernel

end Binary

namespace Native

open Binary

/-- What is promised of a random whole number: an empty range is refused, and every result lies in
the range. -/
structure KeepsRange (x y : ℚ) (answer : Action) : Prop where
  refuses : y < x → ∃ cause, answer = .fail cause
  within : ∀ {low high next}, answer = .pick low high next → ∀ n, low ≤ n → n ≤ high →
    ∃ (r : Float) (z : Int), next n = .done (.number r) ∧
      (ofFloat r).value? = some (z : ℚ) ∧ x ≤ z ∧ z ≤ y

/-- Both bounds are beyond the 64-bit integers on the same side. -/
def OutOfReach (x y : ℚ) : Prop := 2 ^ 63 < x ∧ 2 ^ 63 ≤ y ∨ x ≤ -2 ^ 63 ∧ y < -2 ^ 63

theorem clamp_cases (n : Int) :
    n < leastInteger ∧ clamp n = leastInteger ∨ greatestInteger < n ∧ clamp n = greatestInteger ∨
    leastInteger ≤ n ∧ n ≤ greatestInteger ∧ clamp n = n := by
  unfold clamp
  by_cases hlow : n < leastInteger
  · exact .inl ⟨hlow, if_pos hlow⟩
  · by_cases hhigh : greatestInteger < n
    · exact .inr (.inl ⟨hhigh, by rw [if_neg hlow, if_pos hhigh]⟩)
    · exact .inr
        (.inr ⟨Int.le_of_not_gt hlow, Int.le_of_not_gt hhigh, by rw [if_neg hlow, if_neg hhigh]⟩)

variable {a b : Float} {x y : ℚ}

theorem lowerBound_eq (ha : (ofFloat a).value? = some x) : lowerBound a = clamp ⌈x⌉ := by
  obtain ⟨negative, mantissa, exponent, hfloat, rfl⟩ := exists_finite_of_value? ha
  rw [lowerBound, hfloat, ← ceiling_eq]

theorem upperBound_eq (hb : (ofFloat b).value? = some y) : upperBound b = clamp ⌊y⌋ := by
  obtain ⟨negative, mantissa, exponent, hfloat, rfl⟩ := exists_finite_of_value? hb
  rw [upperBound, hfloat, ← floor_eq]

theorem leastInteger_eq : leastInteger = -2 ^ 63 := rfl

theorem greatestInteger_eq : greatestInteger = 2 ^ 63 - 1 := rfl

/-- No double lies between the greatest integer and the next one. -/
theorem not_between (ha : (ofFloat a).value? = some x) (hle : 2 ^ 63 - 1 ≤ x) : 2 ^ 63 ≤ x := by
  obtain ⟨negative, mantissa, exponent, hfloat, rfl⟩ := exists_finite_of_value? ha
  cases negative with
  | true =>
      have hnonneg := magnitude_nonneg mantissa exponent
      change _ ≤ -magnitude mantissa exponent at hle
      linarith
  | false =>
      change _ ≤ magnitude mantissa exponent at hle ⊢
      obtain ⟨factor, hfactor⟩ :=
        @Canonical.exists_multiple _ _ (canonical_ofFloat hfloat) 10 (by push_cast; linarith)
      rw [hfactor] at hle ⊢
      have hnext : ((2 ^ 53 * 2 ^ 10 : Nat) : ℚ) < ((factor + 1) * 2 ^ 10 : Nat) := by
        push_cast at hle ⊢
        linarith
      have hwhole : ((2 ^ 53 * 2 ^ 10 : Nat) : ℚ) ≤ (factor * 2 ^ 10 : Nat) :=
        Nat.cast_le.2 (Nat.mul_le_mul_right _
          (Nat.le_of_lt_succ (Nat.lt_of_mul_lt_mul_right (Nat.cast_lt.1 hnext))))
      calc (2 : ℚ) ^ 63 = (2 ^ 53 * 2 ^ 10 : Nat) := by norm_num
        _ ≤ _ := hwhole

/-- What is picked between the bounds of a range becomes a number in the range. -/
theorem picked_within (ha : (ofFloat a).value? = some x) (hb : (ofFloat b).value? = some y)
    (hreach : ¬ OutOfReach x y) {n : Int} (hlow : lowerBound a ≤ n) (hhigh : n ≤ upperBound b) :
    ∃ z : Int, (ofFloat (Float.ofInt n)).value? = some (z : ℚ) ∧ x ≤ z ∧ z ≤ y := by
  rw [lowerBound_eq ha] at hlow
  rw [upperBound_eq hb] at hhigh
  have hlower := clamp_cases ⌈x⌉
  have hupper := clamp_cases ⌊y⌋
  rw [leastInteger_eq, greatestInteger_eq] at hlower hupper
  obtain ⟨negative, mantissa, exponent, hfloat, z, hz, hnext⟩ := @ofFloat_ofInt n (by omega)
  refine ⟨z, by rw [hfloat, value?, hz], ?_, ?_⟩
  · rcases hlower with ⟨hbelow, hclamped⟩ | ⟨habove, hclamped⟩ | ⟨-, -, hclamped⟩
    · exact (hnext ha).2 (Int.ceil_le.1 (by omega))
    · -- both bounds are the greatest integer, which becomes the next double above it
      obtain rfl : n = 2 ^ 63 - 1 := by omega
      rw [ofFloat_greatestInteger, Binary.finite.injEq] at hfloat
      obtain ⟨rfl, rfl, rfl⟩ := hfloat
      have hy : 2 ^ 63 ≤ y :=
        not_between hb (by exact_mod_cast Int.le_floor.1 (show (2 ^ 63 - 1 : Int) ≤ ⌊y⌋ by omega))
      have hx : x ≤ 2 ^ 63 := le_of_not_gt fun hlt => hreach (.inl ⟨hlt, hy⟩)
      rw [← hz]
      exact hx.trans (by norm_num [value, magnitude])
    · exact (hnext ha).2 (Int.ceil_le.1 (by omega))
  · rcases hupper with ⟨hbelow, hclamped⟩ | ⟨habove, hclamped⟩ | ⟨-, -, hclamped⟩
    · have hx : x ≤ (-2 ^ 63 : Int) := Int.ceil_le.1 (by omega)
      have hy : y < (-2 ^ 63 : Int) := Int.floor_lt.1 hbelow
      exact absurd (.inr ⟨by exact_mod_cast hx, by exact_mod_cast hy⟩) hreach
    · exact (hnext hb).1 (Int.le_floor.1 (by omega))
    · exact (hnext hb).1 (Int.le_floor.1 (by omega))

theorem randint_answer (a b : Float) : randint.body [.number a, .number b] =
    if upperBound b < lowerBound a then .fail (.randintRange (lowerBound a) (upperBound b))
    else .pick (lowerBound a) (upperBound b) fun n => .done (.number (Float.ofInt n)) := rfl

theorem keepsRange_of_reach (ha : (ofFloat a).value? = some x) (hb : (ofFloat b).value? = some y)
    (hreach : ¬ OutOfReach x y) :
    KeepsRange x y (randint.body [.number a, .number b]) where
  refuses hlt := by
    rw [randint_answer]
    by_cases hempty : upperBound b < lowerBound a
    · exact ⟨_, if_pos hempty⟩
    · obtain ⟨z, -, hxz, hzy⟩ :=
        picked_within ha hb hreach (Int.le_refl _) (Int.le_of_not_gt hempty)
      exact absurd hlt (not_lt_of_ge (hxz.trans hzy))
  within {low high next} hpick n hlow hhigh := by
    rw [randint_answer] at hpick
    split at hpick
    · cases hpick
    · cases hpick
      obtain ⟨z, hz, hxz, hzy⟩ := picked_within ha hb hreach hlow hhigh
      exact ⟨Float.ofInt n, z, rfl, hz, hxz, hzy⟩

/-- Beyond the 64-bit integers the range shrinks to the outermost of them, whatever the bounds
are. -/
theorem randint_outOfReach (ha : (ofFloat a).value? = some x) (hb : (ofFloat b).value? = some y)
    (hreach : OutOfReach x y) :
    ∃ n z : Int, randint.body [.number a, .number b] =
      .pick n n (fun n => .done (.number (Float.ofInt n))) ∧
      (ofFloat (Float.ofInt n)).value? = some (z : ℚ) ∧ ((z : ℚ) < x ∨ y < z) := by
  have hlower := clamp_cases ⌈x⌉
  have hupper := clamp_cases ⌊y⌋
  rw [leastInteger_eq, greatestInteger_eq] at hlower hupper
  rw [randint_answer, lowerBound_eq ha, upperBound_eq hb]
  rcases hreach with ⟨hx, hy⟩ | ⟨hx, hy⟩
  · have hceiling : 2 ^ 63 < ⌈x⌉ := Int.lt_ceil.2 (by exact_mod_cast hx)
    have hfloor : 2 ^ 63 ≤ ⌊y⌋ := Int.le_floor.2 (by exact_mod_cast hy)
    obtain ⟨hlow, hhigh⟩ : clamp ⌈x⌉ = 2 ^ 63 - 1 ∧ clamp ⌊y⌋ = 2 ^ 63 - 1 := by omega
    refine ⟨2 ^ 63 - 1, 2 ^ 63,
      by rw [hlow, hhigh, if_neg (Int.lt_irrefl _)], ?_, .inl (by exact_mod_cast hx)⟩
    rw [ofFloat_greatestInteger, value?]
    norm_num [value, magnitude]
  · have hceiling : ⌈x⌉ ≤ -2 ^ 63 := Int.ceil_le.2 (by exact_mod_cast hx)
    have hfloor : ⌊y⌋ < -2 ^ 63 := Int.floor_lt.2 (by exact_mod_cast hy)
    obtain ⟨hlow, hhigh⟩ : clamp ⌈x⌉ = -2 ^ 63 ∧ clamp ⌊y⌋ = -2 ^ 63 := by omega
    refine ⟨-2 ^ 63, -2 ^ 63,
      by rw [hlow, hhigh, if_neg (Int.lt_irrefl _)], ?_, .inr (by exact_mod_cast hy)⟩
    rw [ofFloat_leastInteger, value?]
    norm_num [value, magnitude]

/-- For all finite bounds, a random whole number is either refused or picked from a range of 64-bit
integers that is not empty. An empty range is refused and every result lies in the range exactly if
the bounds are not both beyond the 64-bit integers on the same side. -/
theorem randint_keeps_range_iff {a b : Float} {x y : ℚ} (ha : (ofFloat a).value? = some x)
    (hb : (ofFloat b).value? = some y) :
    ((∃ low high, randint.body [.number a, .number b] = .fail (.randintRange low high)) ∨
        ∃ low high next, leastInteger ≤ low ∧ low ≤ high ∧ high ≤ greatestInteger ∧
          randint.body [.number a, .number b] = .pick low high next) ∧
      (KeepsRange x y (randint.body [.number a, .number b]) ↔ ¬ OutOfReach x y) := by
  refine ⟨?_, fun hkeeps hreach => ?_, keepsRange_of_reach ha hb⟩
  · rw [randint_answer]
    by_cases hempty : upperBound b < lowerBound a
    · exact .inl ⟨_, _, if_pos hempty⟩
    · have hlower := clamp_cases ⌈x⌉
      have hupper := clamp_cases ⌊y⌋
      rw [← lowerBound_eq ha] at hlower
      rw [← upperBound_eq hb] at hupper
      have horder : leastInteger ≤ greatestInteger := by decide
      exact .inr ⟨_, _, _, by omega, Int.le_of_not_gt hempty, by omega, if_neg hempty⟩
  · obtain ⟨n, z, hpick, hz, houtside⟩ := randint_outOfReach ha hb hreach
    obtain ⟨r, z', hdone, hz', hxz, hzy⟩ := hkeeps.within hpick n (Int.le_refl n) (Int.le_refl n)
    obtain rfl : Float.ofInt n = r := by
      cases hdone
      rfl
    rw [hz, Option.some_inj] at hz'
    rw [← hz'] at hxz hzy
    rcases houtside with hlt | hlt
    · exact absurd hxz (not_le_of_gt hlt)
    · exact absurd hzy (not_le_of_gt hlt)

theorem randint_keeps_range_iff_dice :
    (ofFloat 1).value? = some (1 : ℚ) ∧ (ofFloat 6).value? = some (6 : ℚ) ∧ ¬ OutOfReach 1 6 ∧
      KeepsRange 1 6 (randint.body [.number 1, .number 6]) := by
  have hone : ofFloat 1 = .finite false (2 ^ 52) (-52) := by decide +kernel
  have hsix : ofFloat 6 = .finite false (6 * 2 ^ 50) (-50) := by decide +kernel
  have hx : (ofFloat 1).value? = some (1 : ℚ) := by
    rw [hone, value?]
    norm_num [value, magnitude]
  have hy : (ofFloat 6).value? = some (6 : ℚ) := by
    rw [hsix, value?]
    norm_num [value, magnitude]
  have hreach : ¬ OutOfReach 1 6 := by norm_num [OutOfReach]
  exact ⟨hx, hy, hreach, (randint_keeps_range_iff hx hy).2.2 hreach⟩

/-- Not every empty range is refused. -/
theorem randint_not_always_in_range :
    ¬ ∀ (a b : Float) (x y : ℚ), (ofFloat a).value? = some x → (ofFloat b).value? = some y →
      KeepsRange x y (randint.body [.number a, .number b]) := by
  intro hall
  have ha : ofFloat 20000000000000000000 = .finite false 4882812500000000 12 := by decide +kernel
  have hb : ofFloat 10000000000000000000 = .finite false 4882812500000000 11 := by decide +kernel
  have hx : (ofFloat 20000000000000000000).value? = some (20000000000000000000 : ℚ) := by
    rw [ha, value?]
    norm_num [value, magnitude]
  have hy : (ofFloat 10000000000000000000).value? = some (10000000000000000000 : ℚ) := by
    rw [hb, value?]
    norm_num [value, magnitude]
  obtain ⟨cause, hfail⟩ := (hall _ _ _ _ hx hy).refuses (by norm_num)
  obtain ⟨n, z, hpick, -, -⟩ := randint_outOfReach hx hy (.inl (by norm_num))
  rw [hfail] at hpick
  cases hpick

end Native
end TraitScript
