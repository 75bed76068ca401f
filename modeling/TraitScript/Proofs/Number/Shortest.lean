import TraitScript.Number.Shortest
import TraitScript.Proofs.Number.Rounding

/-!
# Shortest decimals name their doubles
-/

namespace TraitScript

open Binary (Canonical)

namespace Decimal

def value (d : Decimal) : ℚ := d.coefficient * 10 ^ d.exponent

/-- The reals that read back as a magnitude. -/
def Interval.Holds (i : Interval) (q : ℚ) : Prop :=
  if i.closed then i.low * 2 ^ i.exponent ≤ q ∧ q ≤ i.high * 2 ^ i.exponent
  else i.low * 2 ^ i.exponent < q ∧ q < i.high * 2 ^ i.exponent

theorem low_ofBinary (mantissa : Nat) (exponent : Int) : (Interval.ofBinary mantissa exponent).low =
    if mantissa = 2 ^ 52 ∧ -1074 < exponent then 4 * mantissa - 1 else 4 * mantissa - 2 := rfl

theorem high_ofBinary (mantissa : Nat) (exponent : Int) :
    (Interval.ofBinary mantissa exponent).high = 4 * mantissa + 2 := rfl

theorem pow_toNat {base : ℚ} (hbase : base ≠ 0) (power : Int) :
    base ^ power.toNat = base ^ power * base ^ (-power).toNat := by
  rcases Int.le_total 0 power with hle | hle
  · obtain ⟨n, rfl⟩ := Int.eq_ofNat_of_zero_le hle
    simp
  · obtain ⟨n, hn⟩ := Int.eq_ofNat_of_zero_le (show 0 ≤ -power by omega)
    obtain rfl : power = -(n : Int) := by omega
    simp [hbase]

/-- Both factors are in the same unit. -/
theorem Interval.exists_unit (i : Interval) (g : Int) : ∃ unit : ℚ, 0 < unit ∧
    ((i.scale g).1 : ℚ) = 2 ^ i.exponent * unit ∧ ((i.scale g).2 : ℚ) = 10 ^ g * unit := by
  refine ⟨2 ^ (-i.exponent).toNat * 10 ^ (-g).toNat, by positivity, ?_, ?_⟩
  · change ((2 ^ i.exponent.toNat * 10 ^ (-g).toNat : Nat) : ℚ) = _
    push_cast
    rw [pow_toNat (by norm_num) i.exponent, mul_assoc]
  · change ((2 ^ (-i.exponent).toNat * 10 ^ g.toNat : Nat) : ℚ) = _
    push_cast
    rw [pow_toNat (by norm_num) g]
    ring

/-- Whether a point of a grid lies in an interval, in whole numbers. -/
def Interval.inside (i : Interval) (g : Int) (point : Nat) : Bool :=
  if i.closed then i.low * (i.scale g).1 ≤ point * (i.scale g).2 && point * (i.scale g).2 ≤
    i.high * (i.scale g).1
  else i.low * (i.scale g).1 < point * (i.scale g).2 && point * (i.scale g).2 <
    i.high * (i.scale g).1

theorem Interval.inside_iff (i : Interval) (g : Int) (point : Nat) :
    i.inside g point = true ↔ i.Holds (point * 10 ^ g) := by
  obtain ⟨unit, hunit, hquarter, hstep⟩ := i.exists_unit g
  have hle : ∀ n : Nat,
      (n * (i.scale g).1 ≤ point * (i.scale g).2 ↔ (n : ℚ) * 2 ^ i.exponent ≤ point * 10 ^ g) ∧
      (point * (i.scale g).2 ≤ n * (i.scale g).1 ↔ (point : ℚ) * 10 ^ g ≤ n * 2 ^ i.exponent) := by
    intro n
    rw [← @Nat.cast_le ℚ, ← @Nat.cast_le ℚ]
    push_cast
    rw [hquarter, hstep, ← mul_assoc, ← mul_assoc, mul_le_mul_iff_left₀ hunit,
      mul_le_mul_iff_left₀ hunit]
    exact ⟨Iff.rfl, Iff.rfl⟩
  unfold Interval.inside Interval.Holds
  by_cases hclosed : i.closed = true
  · simp only [hclosed, if_true, Bool.and_eq_true, decide_eq_true_eq, (hle _).1, (hle _).2]
  · simp only [hclosed, Bool.false_eq_true, if_false, Bool.and_eq_true, decide_eq_true_eq, ← not_le,
      (hle _).1, (hle _).2]

/-! ### Points of a grid -/

/-- The last point of a grid up to the value in the middle of an interval. -/
def Interval.below (i : Interval) (g : Int) : Nat := i.value * (i.scale g).1 / (i.scale g).2

theorem Interval.nearest?_cases (tie : Tie) (i : Interval) (g : Int) :
    (i.nearest? tie g = none ∧ i.inside g (i.below g) = false ∧
      i.inside g (i.below g + 1) = false) ∨
      ∃ point, i.nearest? tie g = some point ∧ i.inside g point = true := by
  cases hbelow : i.inside g (i.below g) <;> cases habove :
    i.inside g (i.below g + 1) <;> unfold Interval.inside Interval.below at hbelow habove <;>
    simp only [Interval.nearest?, hbelow, habove]
  · exact .inl ⟨trivial, trivial, trivial⟩
  · exact .inr ⟨_, rfl, habove⟩
  · exact .inr ⟨_, rfl, hbelow⟩
  · right
    split
    · exact ⟨_, rfl, hbelow⟩
    · split
      · exact ⟨_, rfl, habove⟩
      · cases tie with
        | up => exact ⟨_, rfl, habove⟩
        | even =>
            dsimp only
            split
            · exact ⟨_, rfl, hbelow⟩
            · exact ⟨_, rfl, habove⟩

theorem Interval.holds_of_nearest? {tie : Tie} {i : Interval} {g : Int} {point : Nat}
    (h : i.nearest? tie g = some point) :
    i.Holds (point * 10 ^ g) := by
  rw [← i.inside_iff]
  rcases i.nearest?_cases tie g with ⟨hnone, -, -⟩ | ⟨point', hsome, hinside⟩
  · rw [hnone] at h
    cases h
  · rw [hsome, Option.some_inj] at h
    exact h ▸ hinside

/-- A grid that is finer than half of an interval has a point in it. -/
theorem Interval.exists_nearest? (tie : Tie) {i : Interval} (hlow : i.low < i.value)
    (hhigh : i.high = i.value + 2) {g : Int} (hfine : (10 : ℚ) ^ g < 2 * 2 ^ i.exponent) :
    ∃ point, i.nearest? tie g = some point := by
  rcases i.nearest?_cases tie g with ⟨-, -, habove⟩ | ⟨point, hsome, -⟩
  · obtain ⟨unit, hunit, hquarter, hstep⟩ := i.exists_unit g
    have hgrid : (0 : ℚ) < 10 ^ g := by positivity
    have hplace : (0 : ℚ) < 2 ^ i.exponent := by positivity
    have hpos : 0 < (i.scale g).2 := by
      rw [← @Nat.cast_pos ℚ, hstep]
      positivity
    have hle : (i.below g : ℚ) * 10 ^ g ≤ i.value * 2 ^ i.exponent := by
      have h : (((i.below g) * (i.scale g).2 : Nat) : ℚ) ≤ ((i.value * (i.scale g).1 : Nat) : ℚ) :=
        Nat.cast_le.2 (Nat.div_mul_le_self _ _)
      push_cast at h
      rw [hquarter, hstep, ← mul_assoc, ← mul_assoc] at h
      exact (mul_le_mul_iff_left₀ hunit).1 h
    have hlt : (i.value : ℚ) * 2 ^ i.exponent < (i.below g + 1) * 10 ^ g := by
      have h : ((i.value * (i.scale g).1 : Nat) : ℚ) <
          (((i.below g + 1) * (i.scale g).2 : Nat) : ℚ) :=
        Nat.cast_lt.2 (Nat.lt_mul_of_div_lt (Nat.lt_succ_self _) hpos)
      push_cast at h
      rw [hquarter, hstep, ← mul_assoc, ← mul_assoc] at h
      exact (mul_lt_mul_iff_left₀ hunit).1 h
    have hlow' : (i.low : ℚ) * 2 ^ i.exponent < i.value * 2 ^ i.exponent :=
      mul_lt_mul_of_pos_right (Nat.cast_lt.2 hlow) hplace
    have hinside : i.Holds ((i.below g + 1 : Nat) * 10 ^ g) := by
      unfold Interval.Holds
      rw [hhigh]
      push_cast
      split
      · exact ⟨by linarith, by linarith⟩
      · exact ⟨by linarith, by linarith⟩
    rw [← i.inside_iff, habove] at hinside
    cases hinside
  · exact ⟨point, hsome⟩

/-! ### Searching -/

theorem holds_search (tie : Tie) (i : Interval) {steps : Nat} {g : Int}
    (h : ∃ k : Nat, k < steps ∧ ∃ point, i.nearest? tie (g - k) = some point) :
    i.Holds (search tie i steps g).value := by
  induction steps generalizing g with
  | zero =>
      obtain ⟨k, hk, -⟩ := h
      exact absurd hk (Nat.not_lt_zero k)
  | succ steps ih =>
      rw [search]
      cases hnearest : i.nearest? tie g with
      | some point => exact Interval.holds_of_nearest? hnearest
      | none =>
          obtain ⟨k, hk, point, hpoint⟩ := h
          cases k with
          | zero =>
              rw [Nat.cast_zero, Int.sub_zero, hnearest] at hpoint
              cases hpoint
          | succ k =>
              refine ih ⟨k, Nat.lt_of_succ_lt_succ hk, point, ?_⟩
              rw [← hpoint]
              congr 1
              omega

/-- Powers of ten lie below powers of two. -/
theorem ten_pow_le (g : Int) : (10 : ℚ) ^ g ≤ 2 ^ (max (4 * g) (3 * g)) := by
  rcases Int.le_total 0 g with hle | hle
  · obtain ⟨n, rfl⟩ := Int.eq_ofNat_of_zero_le hle
    rw [max_eq_left (by omega), zpow_mul]
    exact zpow_le_zpow_left₀ hle (by norm_num) (by norm_num)
  · obtain ⟨n, hn⟩ := Int.eq_ofNat_of_zero_le (show 0 ≤ -g by omega)
    obtain rfl : g = -(n : Int) := by omega
    rw [max_eq_right (by omega), zpow_mul, zpow_neg, zpow_neg]
    exact inv_anti₀ (by positivity)
      (zpow_le_zpow_left₀ (Int.natCast_nonneg n) (by norm_num) (by norm_num))

/-- The shortest decimal of a positive magnitude reads back as it. -/
theorem holds_shortest (tie : Tie) {mantissa : Nat} {exponent : Int}
    (h : Canonical mantissa exponent) (hpos : 0 < mantissa) :
    (Interval.ofBinary mantissa exponent).Holds (shortest tie mantissa exponent).value := by
  obtain ⟨hlt, hleast, hgreatest, -⟩ := h
  have hlog : mantissa.log2 < 53 := (Nat.log2_lt (Nat.ne_of_gt hpos)).2 hlt
  refine holds_search tie _ ⟨119, by decide, Interval.exists_nearest? tie ?_ rfl ?_⟩
  · rw [low_ofBinary]
    change _ < 4 * mantissa
    split <;> omega
  · have hgrid := ten_pow_le (bound mantissa exponent - (119 : Nat))
    have hexponents : max (4 * (bound mantissa exponent - (119 : Nat)))
        (3 * (bound mantissa exponent - (119 : Nat))) < exponent - 1 := by
      unfold bound
      dsimp only
      split <;> omega
    calc (10 : ℚ) ^ (bound mantissa exponent - (119 : Nat)) ≤ _ := hgrid
      _ < 2 ^ (exponent - 1) := zpow_lt_zpow_right₀ (by norm_num) hexponents
      _ = 2 * 2 ^ (exponent - 2) := by
          rw [← zpow_one_add₀ (by norm_num)]
          congr 1
          omega

/-! ### Different doubles -/

theorem Interval.Holds.le {i : Interval} {q : ℚ} (h : i.Holds q) :
    i.low * 2 ^ i.exponent ≤ q ∧ q ≤ i.high * 2 ^ i.exponent := by
  unfold Interval.Holds at h
  split at h
  · exact h
  · exact ⟨le_of_lt h.1, le_of_lt h.2⟩

theorem Interval.Holds.lt {i : Interval} {q : ℚ} (h : i.Holds q) (hopen : i.closed = false) :
    i.low * 2 ^ i.exponent < q ∧ q < i.high * 2 ^ i.exponent := by
  rw [Interval.Holds, hopen] at h
  exact h

/-- A value reads back as itself. -/
theorem holds_magnitude (mantissa : Nat) (exponent : Int) :
    (Interval.ofBinary mantissa exponent).Holds (Binary.magnitude mantissa exponent) := by
  have hplace : (0 : ℚ) < 2 ^ (exponent - 2) := by positivity
  have hvalue : Binary.magnitude mantissa exponent = (4 * mantissa : Nat) * 2 ^ (exponent - 2) := by
    rw [Binary.magnitude, zpow_sub₀ (by norm_num)]
    push_cast
    ring
  have hhigh : 4 * mantissa < (Interval.ofBinary mantissa exponent).high :=
    Nat.lt_add_of_pos_right Nat.two_pos
  rw [hvalue]
  unfold Interval.Holds
  split
  next hclosed =>
    have hlow : (Interval.ofBinary mantissa exponent).low ≤ 4 * mantissa := by
      rw [low_ofBinary]
      split <;> omega
    exact ⟨mul_le_mul_of_nonneg_right (Nat.cast_le.2 hlow) (le_of_lt hplace),
      mul_le_mul_of_nonneg_right (Nat.cast_le.2 (le_of_lt hhigh)) (le_of_lt hplace)⟩
  next hopen =>
    have hlow : (Interval.ofBinary mantissa exponent).low < 4 * mantissa := by
      have hodd : ¬ mantissa % 2 = 0 := fun heven => hopen (beq_iff_eq.2 heven)
      rw [low_ofBinary]
      split <;> omega
    exact ⟨mul_lt_mul_of_pos_right (Nat.cast_lt.2 hlow) hplace,
      mul_lt_mul_of_pos_right (Nat.cast_lt.2 hhigh) hplace⟩

/-- The interval of a double ends where that of the next one begins, and the common end belongs to
one of them only. -/
theorem high_le_low {mantissa mantissa' : Nat} {exponent exponent' : Int}
    (h : Canonical mantissa exponent) (h' : Canonical mantissa' exponent') {places : Nat}
    (hexponent : exponent' = exponent + places) (hlt : places = 0 → mantissa < mantissa') :
    (Interval.ofBinary mantissa exponent).high ≤
      (Interval.ofBinary mantissa' exponent').low * 2 ^ places ∧
      (mantissa % 2 = 0 → mantissa' % 2 = 0 →
        (Interval.ofBinary mantissa exponent).high <
        (Interval.ofBinary mantissa' exponent').low * 2 ^ places) := by
  obtain ⟨hsize, hleast, -, -⟩ := h
  rw [high_ofBinary, low_ofBinary]
  cases places with
  | zero =>
      have hnext := hlt rfl
      rw [Nat.pow_zero, Nat.mul_one]
      split <;> omega
  | succ places =>
      have hfull : 2 ^ 52 ≤ mantissa' := h'.full.resolve_right (by omega)
      have hlow : 2 ^ 54 - 1 ≤
          if mantissa' = 2 ^ 52 ∧ -1074 < exponent' then 4 * mantissa' - 1
          else 4 * mantissa' - 2 := by
        split <;> omega
      have hpower : 2 ≤ 2 ^ (places + 1) := Nat.le_self_pow (Nat.succ_ne_zero places) 2
      have hproduct := Nat.mul_le_mul hlow hpower
      omega

/-- No number reads back as two doubles. -/
theorem not_holds_of_lt {mantissa mantissa' : Nat} {exponent exponent' : Int}
    (h : Canonical mantissa exponent) (h' : Canonical mantissa' exponent') {places : Nat}
    (hexponent : exponent' = exponent + places) (hlt : places = 0 → mantissa < mantissa') {q : ℚ}
    (hq : (Interval.ofBinary mantissa exponent).Holds q) :
    ¬ (Interval.ofBinary mantissa' exponent').Holds q := by
  intro hq'
  obtain ⟨hle, hstrict⟩ := high_le_low h h' hexponent hlt
  have hplace : (0 : ℚ) < 2 ^ (exponent - 2) := by positivity
  have hshift : (2 : ℚ) ^ (exponent' - 2) = 2 ^ places * 2 ^ (exponent - 2) := by
    rw [hexponent, ← zpow_natCast, ← zpow_add₀ (by norm_num)]
    congr 1
    omega
  have hle' : ((Interval.ofBinary mantissa exponent).high : ℚ) * 2 ^ (exponent - 2) ≤
      (Interval.ofBinary mantissa' exponent').low * 2 ^ (exponent' - 2) := by
    rw [hshift, ← mul_assoc]
    exact mul_le_mul_of_nonneg_right (by exact_mod_cast hle) (le_of_lt hplace)
  have hends := hq.le.2
  have hends' := hq'.le.1
  change q ≤ _ * 2 ^ (exponent - 2) at hends
  change _ * 2 ^ (exponent' - 2) ≤ q at hends'
  cases hclosed : (Interval.ofBinary mantissa exponent).closed with
  | false =>
      have hopen := (hq.lt hclosed).2
      change q < _ * 2 ^ (exponent - 2) at hopen
      linarith
  | true =>
      cases hclosed' : (Interval.ofBinary mantissa' exponent').closed with
      | false =>
          have hopen := (hq'.lt hclosed').1
          change _ * 2 ^ (exponent' - 2) < q at hopen
          linarith
      | true =>
          have hgap : ((Interval.ofBinary mantissa exponent).high : ℚ) * 2 ^ (exponent - 2) <
              (Interval.ofBinary mantissa' exponent').low * 2 ^ (exponent' - 2) := by
            rw [hshift, ← mul_assoc]
            exact mul_lt_mul_of_pos_right
              (by exact_mod_cast hstrict (beq_iff_eq.1 hclosed) (beq_iff_eq.1 hclosed')) hplace
          linarith

/-- A number reads back as one double only. -/
theorem eq_of_holds {mantissa mantissa' : Nat} {exponent exponent' : Int}
    (h : Canonical mantissa exponent) (h' : Canonical mantissa' exponent') {q : ℚ}
    (hq : (Interval.ofBinary mantissa exponent).Holds q)
    (hq' : (Interval.ofBinary mantissa' exponent').Holds q) :
    mantissa = mantissa' ∧ exponent = exponent' := by
  rcases Int.lt_trichotomy exponent exponent' with hlt | rfl | hlt
  · exact absurd hq'
      (@not_holds_of_lt _ _ _ _ h h' (exponent' - exponent).toNat (by omega) (by omega) q hq)
  · rcases Nat.lt_trichotomy mantissa mantissa' with hlt | rfl | hlt
    · exact absurd hq' (@not_holds_of_lt _ _ _ _ h h' 0 (by omega) (fun _ => hlt) q hq)
    · exact ⟨rfl, rfl⟩
    · exact absurd hq (@not_holds_of_lt _ _ _ _ h' h 0 (by omega) (fun _ => hlt) q hq')
  · exact absurd hq (@not_holds_of_lt _ _ _ _ h' h (exponent - exponent').toNat (by omega)
      (by omega) q hq')

end Decimal
end TraitScript
