import TraitScript.Proofs.Number.Double

/-!
# Whole numbers as doubles

A double stands for a rational number, with an exact floor and ceiling. Where the mantissa has its
full length the doubles are multiples of a power of two, and rounding takes a whole number to one of
the two multiples around it. So between a whole number and the double it becomes there is no other
double.
-/

namespace TraitScript

open Float.Model (Format UnpackedFloat totalExponent)
open Float.Model.UnpackedFloat
  (Sign ExtendedMantissa roundWithAccuracy shiftToTargetExponent shiftToExponent)

namespace Binary

/-! ### Shifting -/

theorem mantissa_shiftRight (em : ExtendedMantissa) (places : Nat) :
    (em >>> places).mantissa = em.mantissa / 2 ^ places := by
  induction places with
  | zero => exact (Nat.div_one _).symm
  | succ places ih =>
      change (em >>> places).mantissa / 2 = _
      rw [ih, Nat.div_div_eq_div_mul, Nat.pow_succ]

/-- Nothing is lost when zeros are shifted out. -/
theorem shiftRight_mul (mantissa places : Nat) :
    (⟨mantissa * 2 ^ places, false, false⟩ : ExtendedMantissa) >>> places =
      ⟨mantissa, false, false⟩ := by
  induction places generalizing mantissa with
  | zero =>
      rw [Nat.pow_zero, Nat.mul_one]
      rfl
  | succ places ih =>
      change ((⟨mantissa * 2 ^ (places + 1), false, false⟩ : ExtendedMantissa) >>>
        places).shiftRightOne = _
      have hsplit : mantissa * 2 ^ (places + 1) = mantissa * 2 * 2 ^ places := by
        rw [Nat.pow_succ, Nat.mul_assoc, Nat.mul_comm 2]
      rw [hsplit, ih]
      simp [ExtendedMantissa.shiftRightOne]

theorem roundedMantissa_bounds (em : ExtendedMantissa) :
    em.mantissa ≤ em.roundedMantissa ∧ em.roundedMantissa ≤ em.mantissa + 1 := by
  obtain ⟨mantissa, roundBit, stickyBit⟩ := em
  have hbit := Nat.mod_lt mantissa (Nat.succ_pos 1)
  cases roundBit <;> cases stickyBit <;>
    simp only [ExtendedMantissa.roundedMantissa, ExtendedMantissa.accuracy,
      Float.Model.UnpackedFloat.Accuracy.roundToNearestEven] <;> omega

theorem targetExponent_eq (mantissa : Nat) (exponent : Int) :
    Format.binary64.targetExponent (totalExponent mantissa exponent) =
      max ((mantissa.log2 : Int) + exponent - 52) (-1074) := by
  simp only [Format.targetExponent, totalExponent, Format.mantissaBits, Format.minExponent]
  norm_num
  omega

theorem shiftToTargetExponent_eq (mantissa : Nat) (exponent : Int) {places : Nat}
    (h : max ((mantissa.log2 : Int) + exponent - 52) (-1074) - exponent = places) :
    shiftToTargetExponent .binary64 mantissa exponent .exact =
      ((⟨mantissa, false, false⟩ : ExtendedMantissa) >>> places, exponent + places) := by
  have hplaces : (Format.binary64.targetExponent (totalExponent mantissa exponent) - exponent).toNat
      = places := by
    rw [targetExponent_eq, h, Int.toNat_natCast]
  unfold shiftToTargetExponent shiftToExponent
  dsimp only
  rw [hplaces]
  rfl

theorem roundWithAccuracy_eq {mantissa : Nat} {exponent first last : Int}
    {em em' : ExtendedMantissa}
    (hfirst : shiftToTargetExponent .binary64 mantissa exponent .exact = (em, first))
    (hlast : shiftToTargetExponent .binary64 em.roundedMantissa first .exact = (em', last))
    (hpos : 0 < em'.mantissa) (sign : Sign) :
    roundWithAccuracy .binary64 sign mantissa exponent .exact =
      .finite sign em'.mantissa last hpos := by
  unfold roundWithAccuracy
  simp only [hfirst, hlast]
  exact dif_neg (Nat.ne_of_gt hpos)

theorem log2_mul_pow (mantissa places : Nat) (hpos : 0 < mantissa) :
    (mantissa * 2 ^ places).log2 = mantissa.log2 + places := by
  refine (Nat.log2_eq_iff (Nat.ne_of_gt (by positivity))).2 ⟨?_, ?_⟩
  · rw [Nat.pow_add]
    exact Nat.mul_le_mul_right _ (Nat.log2_self_le (Nat.ne_of_gt hpos))
  · rw [Nat.add_right_comm, Nat.pow_add]
    exact Nat.mul_lt_mul_of_pos_right Nat.lt_log2_self (Nat.two_pow_pos places)

theorem Canonical.target {mantissa : Nat} {exponent : Int} (h : Canonical mantissa exponent)
    (hpos : 0 < mantissa) :
    max ((mantissa.log2 : Int) + exponent - 52) (-1074) = exponent := by
  obtain ⟨hlt, hleast, -, hfull⟩ := h
  have hlog : mantissa.log2 < 53 := (Nat.log2_lt (Nat.ne_of_gt hpos)).2 hlt
  rcases hfull with hfull | hfull
  · have hlog' : 52 ≤ mantissa.log2 := (Nat.le_log2 (Nat.ne_of_gt hpos)).2 hfull
    omega
  · omega

/-- Rounding keeps what a double has room for. -/
theorem roundWithAccuracy_mul_pow {mantissa : Nat} {exponent : Int}
    (h : Canonical mantissa exponent) (hpos : 0 < mantissa) (sign : Sign) (places : Nat) :
    roundWithAccuracy .binary64 sign (mantissa * 2 ^ places) (exponent - places) .exact =
      .finite sign mantissa exponent hpos := by
  have htarget := h.target hpos
  have hfirst : shiftToTargetExponent .binary64 (mantissa * 2 ^ places) (exponent - places) .exact =
      (⟨mantissa, false, false⟩, exponent) := by
    rw [@shiftToTargetExponent_eq _ _ places (by rw [log2_mul_pow _ _ hpos]; omega), shiftRight_mul,
      Int.sub_add_cancel]
  have hlast : shiftToTargetExponent .binary64 mantissa exponent .exact =
      (⟨mantissa, false, false⟩, exponent) := by
    rw [@shiftToTargetExponent_eq _ _ 0 (by omega), Nat.cast_zero, Int.add_zero]
    rfl
  exact roundWithAccuracy_eq hfirst hlast hpos sign

/-- The leading digits of a long number fill a mantissa. -/
theorem div_two_pow_bounds {n places : Nat} (hlog : n.log2 = 52 + places) :
    2 ^ 52 ≤ n / 2 ^ places ∧ n / 2 ^ places < 2 ^ 53 := by
  have hn : n ≠ 0 := by
    rintro rfl
    rw [Nat.log2_zero] at hlog
    omega
  constructor
  · rw [Nat.le_div_iff_mul_le (Nat.two_pow_pos places), ← Nat.pow_add, ← hlog]
    exact Nat.log2_self_le hn
  · rw [Nat.div_lt_iff_lt_mul (Nat.two_pow_pos places), ← Nat.pow_add]
    exact Nat.lt_of_lt_of_le Nat.lt_log2_self (Nat.pow_le_pow_right (by decide) (by omega))

/-- Digits that are shifted out round up at most if one of them is not zero. -/
theorem roundedMantissa_shiftRight (n places : Nat) {em : ExtendedMantissa}
    (hem : em = (⟨n * 2 ^ 53, false, false⟩ : ExtendedMantissa) >>> (53 + places)) :
    em.roundedMantissa = n / 2 ^ places ∨ em.roundedMantissa = n / 2 ^ places + 1 ∧
      ¬ 2 ^ places ∣ n := by
  by_cases hdvd : 2 ^ places ∣ n
  · obtain ⟨quotient, rfl⟩ := hdvd
    left
    have hzeros : 2 ^ places * quotient * 2 ^ 53 = quotient * 2 ^ (53 + places) := by
      rw [Nat.pow_add, Nat.mul_comm _ quotient, Nat.mul_assoc, Nat.mul_comm (2 ^ places)]
    rw [hem, hzeros, shiftRight_mul, Nat.mul_div_cancel_left _ (Nat.two_pow_pos places)]
    rfl
  · have hmantissa : em.mantissa = n / 2 ^ places := by
      rw [hem, mantissa_shiftRight, Nat.add_comm, Nat.pow_add]
      exact Nat.mul_div_mul_right _ _ (Nat.two_pow_pos 53)
    have hbounds := roundedMantissa_bounds em
    rw [hmantissa] at hbounds
    rcases Nat.eq_or_lt_of_le hbounds.1 with heq | hlt
    · exact .inl heq.symm
    · exact .inr ⟨Nat.le_antisymm hbounds.2 hlt, hdvd⟩

/-- A rounded mantissa fits as it is, unless rounding up has made it too long by one bit, which is
zero. -/
theorem shiftToTargetExponent_rounded {rounded places : Nat} (hlow : 2 ^ 52 ≤ rounded)
    (hhigh : rounded ≤ 2 ^ 53) (hplaces : places ≤ 900) :
    ∃ mantissa exponent : Nat, shiftToTargetExponent .binary64 rounded (places : Int) .exact =
      (⟨mantissa, false, false⟩, (exponent : Int)) ∧
      Canonical mantissa exponent ∧ 0 < mantissa ∧
      mantissa * 2 ^ exponent = rounded * 2 ^ places := by
  by_cases hshort : rounded < 2 ^ 53
  · have hlog : rounded.log2 = 52 := (Nat.log2_eq_iff (by omega)).2 ⟨hlow, hshort⟩
    refine ⟨rounded, places, ?_, ⟨hshort, by omega, by omega, .inl hlow⟩,
      Nat.lt_of_lt_of_le (by decide) hlow, rfl⟩
    rw [@shiftToTargetExponent_eq _ _ 0 (by omega), Nat.cast_zero, Int.add_zero]
    rfl
  · have hfull : rounded = 2 ^ 52 * 2 ^ 1 := by omega
    refine ⟨2 ^ 52, places + 1, ?_, ⟨by decide, by omega, by omega, .inl (by decide)⟩,
      by decide, ?_⟩
    · rw [hfull, @shiftToTargetExponent_eq _ _ 1
        (by rw [log2_mul_pow _ _ (by decide), Nat.log2_two_pow]; omega), shiftRight_mul]
      rfl
    · rw [hfull, Nat.mul_assoc, ← Nat.pow_add, ← Nat.pow_add, ← Nat.pow_add, Nat.add_comm 1]

/-- A whole number that is too long for a mantissa becomes one of the two neighbouring multiples of
a power of two, and itself if it is one. -/
theorem roundWithAccuracy_long {n places : Nat} (hlog : n.log2 = 52 + places)
    (hplaces : places ≤ 900) :
    ∃ rounded mantissa : Nat, ∃ exponent : Nat, ∃ hpos : 0 < mantissa,
      roundWithAccuracy .binary64 .positive (n * 2 ^ 53) (-53) .exact =
      .finite .positive mantissa exponent hpos ∧ Canonical mantissa exponent ∧
        mantissa * 2 ^ exponent = rounded * 2 ^ places ∧
        (rounded = n / 2 ^ places ∨ rounded = n / 2 ^ places + 1 ∧ ¬ 2 ^ places ∣ n) := by
  obtain ⟨hlow, hhigh⟩ := div_two_pow_bounds hlog
  have hn : 0 < n := Nat.pos_of_ne_zero fun hzero => by simp [hzero] at hlow
  obtain ⟨em, hem⟩ : ∃ em, em = (⟨n * 2 ^ 53, false, false⟩ : ExtendedMantissa) >>> (53 + places) :=
    ⟨_, rfl⟩
  have hfirst : shiftToTargetExponent .binary64 (n * 2 ^ 53) (-53) .exact =
      (em, (places : Int)) := by
    rw [@shiftToTargetExponent_eq _ _ (53 + places) (by rw [log2_mul_pow _ _ hn]; omega), hem]
    congr 1
    omega
  have hrounded := roundedMantissa_shiftRight n places hem
  obtain ⟨hleast, hmost⟩ : 2 ^ 52 ≤ em.roundedMantissa ∧ em.roundedMantissa ≤ 2 ^ 53 := by
    rcases hrounded with heq | ⟨heq, -⟩ <;> omega
  obtain ⟨mantissa, exponent, hlast, hcanonical, hpos, hvalue⟩ :=
    shiftToTargetExponent_rounded hleast hmost hplaces
  exact ⟨em.roundedMantissa, mantissa, exponent, hpos, roundWithAccuracy_eq hfirst hlast hpos _,
    hcanonical, hvalue, hrounded⟩

/-! ### Values -/

def magnitude (mantissa : Nat) (exponent : Int) : ℚ := mantissa * 2 ^ exponent

theorem magnitude_natCast (mantissa exponent : Nat) :
    magnitude mantissa exponent = ((mantissa * 2 ^ exponent : Nat) : ℚ) := by
  rw [magnitude, zpow_natCast]
  push_cast
  rfl

def value (negative : Bool) (mantissa : Nat) (exponent : Int) : ℚ :=
  if negative then -magnitude mantissa exponent else magnitude mantissa exponent

/-- The rational number that a double stands for. -/
def value? : Binary → Option ℚ
  | .finite negative mantissa exponent => some (value negative mantissa exponent)
  | _ => none

theorem exists_finite_of_value? {b : Binary} {v : ℚ} (h : b.value? = some v) :
    ∃ negative mantissa exponent, b = .finite negative mantissa exponent ∧
      value negative mantissa exponent = v := by
  cases b with
  | nan | infinite _ => cases h
  | finite negative mantissa exponent =>
    exact ⟨negative, mantissa, exponent, rfl, Option.some_inj.1 h⟩

theorem value_not (negative : Bool) (mantissa : Nat) (exponent : Int) :
    value (!negative) mantissa exponent = -value negative mantissa exponent := by
  cases negative
  · rfl
  · exact (neg_neg _).symm

theorem magnitude_nonneg (mantissa : Nat) (exponent : Int) : 0 ≤ magnitude mantissa exponent := by
  rw [magnitude]
  positivity

theorem truncate_le (mantissa : Nat) (exponent : Int) :
    (truncate mantissa exponent : ℚ) ≤ magnitude mantissa exponent ∧
      magnitude mantissa exponent < truncate mantissa exponent + 1 ∧
      (isIntegral mantissa exponent = true ↔
        magnitude mantissa exponent = truncate mantissa exponent) := by
  unfold truncate isIntegral
  by_cases hexponent : 0 ≤ exponent
  · obtain ⟨power, rfl⟩ := Int.eq_ofNat_of_zero_le hexponent
    have hvalue : magnitude mantissa power = ((mantissa * twoTo power : Nat) : ℚ) :=
      magnitude_natCast mantissa power
    rw [if_pos hexponent, Int.toNat_natCast, hvalue]
    exact ⟨le_refl _, by linarith, by simp⟩
  · obtain ⟨power, hpower⟩ := Int.eq_ofNat_of_zero_le (show 0 ≤ -exponent by omega)
    obtain rfl : exponent = -(power : Int) := by omega
    have hpos : (0 : ℚ) < 2 ^ power := by positivity
    have hvalue : magnitude mantissa (-(power : Int)) * 2 ^ power = mantissa := by
      rw [magnitude, zpow_neg, zpow_natCast, mul_assoc, inv_mul_cancel₀ (ne_of_gt hpos), mul_one]
    have hdivision : (2 : ℚ) ^ power * (mantissa / twoTo power : Nat) +
        (mantissa % twoTo power : Nat) = mantissa := by
      exact_mod_cast Nat.div_add_mod mantissa (2 ^ power)
    have hrest : ((mantissa % twoTo power : Nat) : ℚ) < 2 ^ power := by
      exact_mod_cast Nat.mod_lt mantissa (Nat.two_pow_pos power)
    have hrest' : (0 : ℚ) ≤ (mantissa % twoTo power : Nat) := Nat.cast_nonneg _
    rw [if_neg hexponent, hpower, Int.toNat_natCast]
    refine ⟨le_of_mul_le_mul_right (by linarith) hpos,
      lt_of_mul_lt_mul_right (by linarith) (le_of_lt hpos), ?_⟩
    rw [decide_eq_false hexponent, Bool.false_or, beq_iff_eq]
    constructor
    · intro hzero
      rw [hzero, Nat.cast_zero, add_zero] at hdivision
      exact mul_right_cancel₀ (ne_of_gt hpos) (by linarith)
    · intro heq
      have hrest'' : ((mantissa % twoTo power : Nat) : ℚ) = 0 := by
        rw [heq] at hvalue
        linarith
      exact_mod_cast hrest''

theorem floor_eq (negative : Bool) (mantissa : Nat) (exponent : Int) :
    floor negative mantissa exponent = ⌊value negative mantissa exponent⌋ := by
  obtain ⟨hle, hlt, hintegral⟩ := truncate_le mantissa exponent
  symm
  rw [Int.floor_eq_iff]
  unfold floor value
  cases negative with
  | false =>
      simp only [Bool.false_eq_true, if_false]
      exact ⟨by exact_mod_cast hle, by exact_mod_cast hlt⟩
  | true =>
      simp only [if_true]
      by_cases hwhole : isIntegral mantissa exponent = true
      · rw [if_pos hwhole, hintegral.1 hwhole]
        push_cast
        exact ⟨le_refl _, by linarith⟩
      · rw [if_neg hwhole]
        have hstrict : (truncate mantissa exponent : ℚ) < magnitude mantissa exponent :=
          lt_of_le_of_ne hle fun heq => hwhole (hintegral.2 heq.symm)
        push_cast
        exact ⟨by linarith, by linarith⟩

theorem ceiling_eq (negative : Bool) (mantissa : Nat) (exponent : Int) :
    ceiling negative mantissa exponent = ⌈value negative mantissa exponent⌉ := by
  rw [ceiling, floor_eq, value_not, Int.floor_neg, neg_neg]

/-! ### Neighbours -/

/-- From `2 ^ (52 + places)` on the doubles are multiples of `2 ^ places`. -/
theorem Canonical.exists_multiple {mantissa : Nat} {exponent : Int}
    (h : Canonical mantissa exponent) {places : Nat}
    (hle : ((2 ^ (52 + places) : Nat) : ℚ) ≤ magnitude mantissa exponent) :
    ∃ factor : Nat, magnitude mantissa exponent = ((factor * 2 ^ places : Nat) : ℚ) := by
  have hexponent : (places : Int) ≤ exponent := by
    by_contra hlt
    have hsmall : magnitude mantissa exponent < ((2 ^ (52 + places) : Nat) : ℚ) := by
      calc magnitude mantissa exponent < 2 ^ 53 * 2 ^ exponent := by
            rw [magnitude]
            have hmantissa : (mantissa : ℚ) < 2 ^ 53 := by exact_mod_cast h.lt
            exact mul_lt_mul_of_pos_right hmantissa (by positivity)
        _ ≤ 2 ^ 53 * 2 ^ ((places : Int) - 1) := by
            refine mul_le_mul_of_nonneg_left (zpow_le_zpow_right₀ (by norm_num) (by omega))
              (by positivity)
        _ = ((2 ^ (52 + places) : Nat) : ℚ) := by
            rw [zpow_sub₀ (by norm_num), zpow_natCast, pow_add]
            push_cast
            ring
    exact absurd hle (not_le_of_gt hsmall)
  obtain ⟨shift, rfl⟩ := Int.le.dest hexponent
  refine ⟨mantissa * 2 ^ shift, ?_⟩
  rw [magnitude, ← Int.natCast_add, zpow_natCast, pow_add]
  push_cast
  ring

/-- A double that stands for a whole number and has no other double between itself and a given
natural number. -/
structure Faithful (n mantissa : Nat) (exponent : Int) : Prop where
  canonical : Canonical mantissa exponent
  whole : ∃ z : Nat, magnitude mantissa exponent = z
  above : ∀ {mantissa' : Nat} {exponent' : Int}, Canonical mantissa' exponent' →
      (n : ℚ) ≤ magnitude mantissa' exponent' →
    magnitude mantissa exponent ≤ magnitude mantissa' exponent'
  below : ∀ {mantissa' : Nat} {exponent' : Int}, Canonical mantissa' exponent' →
      magnitude mantissa' exponent' ≤ n →
    magnitude mantissa' exponent' ≤ magnitude mantissa exponent

theorem Faithful.of_eq {n mantissa : Nat} {exponent : Int} (h : Canonical mantissa exponent)
    (heq : magnitude mantissa exponent = n) :
    Faithful n mantissa exponent where
  canonical := h
  whole := ⟨n, heq⟩
  above _ hle := heq ▸ hle
  below _ hle := heq ▸ hle

theorem Faithful.of_rounded {n places rounded mantissa exponent : Nat} (hn : 2 ^ (52 + places) ≤ n)
    (h : Canonical mantissa exponent) (heq : mantissa * 2 ^ exponent = rounded * 2 ^ places)
    (hrounded : rounded = n / 2 ^ places ∨ rounded = n / 2 ^ places + 1 ∧ ¬ 2 ^ places ∣ n) :
    Faithful n mantissa exponent := by
  have hvalue : magnitude mantissa exponent = ((rounded * 2 ^ places : Nat) : ℚ) := by
    rw [magnitude_natCast, heq]
  have hpower := Nat.two_pow_pos places
  have hleast : 2 ^ (52 + places) ≤ n / 2 ^ places * 2 ^ places := by
    rw [Nat.pow_add]
    refine Nat.mul_le_mul_right _ ((Nat.le_div_iff_mul_le hpower).2 ?_)
    rw [← Nat.pow_add]
    exact hn
  refine ⟨h, ⟨_, hvalue⟩, fun {mantissa' exponent'} h' hle => ?_,
    fun {mantissa' exponent'} h' hle => ?_⟩
  · rcases hrounded with rfl | ⟨rfl, hdvd⟩
    · rw [hvalue]
      exact le_trans (by exact_mod_cast Nat.div_mul_le_self n (2 ^ places)) hle
    · obtain ⟨factor, hfactor⟩ := h'.exists_multiple (le_trans (by exact_mod_cast hn) hle)
      rw [hfactor, Nat.cast_le] at hle
      rw [hvalue, hfactor, Nat.cast_le]
      refine Nat.mul_le_mul_right _
        (Nat.succ_le_of_lt
          ((Nat.div_lt_iff_lt_mul hpower).2 (Nat.lt_of_le_of_ne hle fun hsame => hdvd ?_)))
      exact hsame ▸ Nat.dvd_mul_left ..
  · have hquotient : n / 2 ^ places * 2 ^ places ≤ rounded * 2 ^ places :=
      Nat.mul_le_mul_right _ (by omega)
    rw [hvalue]
    by_cases hlarge : ((2 ^ (52 + places) : Nat) : ℚ) ≤ magnitude mantissa' exponent'
    · obtain ⟨factor, hfactor⟩ := h'.exists_multiple hlarge
      rw [hfactor, Nat.cast_le] at hle
      rw [hfactor, Nat.cast_le]
      exact Nat.le_trans (Nat.mul_le_mul_right _ ((Nat.le_div_iff_mul_le hpower).2 hle)) hquotient
    · exact le_trans (le_of_not_ge hlarge) (by exact_mod_cast Nat.le_trans hleast hquotient)

/-! ### Converting -/

theorem isNegative_inj {sign sign' : Sign} (h : isNegative sign = isNegative sign') :
    sign = sign' := by
  cases sign <;> cases sign' <;> first | rfl | cases h

theorem unpack_of_ofFloat {x : Float} {sign : Sign} {mantissa : Nat} {exponent : Int}
    (hpos : 0 < mantissa) (h : ofFloat x = .finite (isNegative sign) mantissa exponent) :
    x.toModel.unpack = .finite sign mantissa exponent hpos := by
  rw [ofFloat_eq] at h
  cases hunpacked : x.toModel.unpack with
  | notANumber | infinity _ =>
      rw [hunpacked] at h
      cases h
  | zero _ =>
      rw [hunpacked, ofUnpacked, Binary.finite.injEq] at h
      exact absurd hpos (Nat.not_lt_of_le (Nat.le_of_eq h.2.1.symm))
  | finite sign' mantissa' exponent' hpos' =>
      rw [hunpacked, ofUnpacked, Binary.finite.injEq] at h
      obtain ⟨hsign, rfl, rfl⟩ := h
      rw [isNegative_inj hsign]

/-- Short numbers are multiplied by one. -/
theorem ofNat_short {n : Nat} (h : n < 2 ^ 53) :
    Float.ofNat n = n.toUInt64.toFloat * Float.ofBits 0x3FF0000000000000 := dif_pos ⟨h, by decide⟩

theorem ofNat_long {n : Nat} (h : 2 ^ 53 ≤ n) : Float.ofNat n = .ofModel (.ofScientific n 0) :=
  dif_neg fun hshort => Nat.not_le_of_lt hshort.1 h

theorem unpack_one :
    (Float.ofBits 0x3FF0000000000000).toModel.unpack =
      .finite .positive (2 ^ 52) (-52) (by decide) :=
  rfl

theorem ofFloat_toFloat {n : Nat} (hpos : 0 < n) (hlt : n < 2 ^ 53) :
    ∃ mantissa exponent, Canonical mantissa exponent ∧ 0 < mantissa ∧
    magnitude mantissa exponent = n ∧
    ofFloat n.toUInt64.toFloat = .finite false mantissa exponent := by
  have hlog : n.log2 < 53 := (Nat.log2_lt (Nat.ne_of_gt hpos)).2 hlt
  obtain ⟨places, hplaces⟩ : ∃ places : Nat, n.log2 + places = 52 := ⟨52 - n.log2, by omega⟩
  have hcanonical : Canonical (n * 2 ^ places) (-(places : Int)) := by
    refine ⟨?_, by omega, by omega, .inl ?_⟩
    · calc n * 2 ^ places < 2 ^ (n.log2 + 1) * 2 ^ places :=
        Nat.mul_lt_mul_of_pos_right Nat.lt_log2_self (Nat.two_pow_pos _)
        _ = 2 ^ 53 := by rw [← Nat.pow_add, Nat.add_right_comm, hplaces]
    · calc 2 ^ 52 = 2 ^ n.log2 * 2 ^ places := by rw [← Nat.pow_add, hplaces]
        _ ≤ n * 2 ^ places := Nat.mul_le_mul_right _ (Nat.log2_self_le (Nat.ne_of_gt hpos))
  have hpos' : 0 < n * 2 ^ places := Nat.mul_pos hpos (Nat.two_pow_pos _)
  refine ⟨n * 2 ^ places, -(places : Int), hcanonical, hpos', ?_, ?_⟩
  · rw [magnitude, zpow_neg, zpow_natCast, Nat.cast_mul, Nat.cast_pow, Nat.cast_ofNat, mul_assoc,
      mul_inv_cancel₀ (by positivity), mul_one]
  · have hword : n.toUInt64.toNat = n := Nat.mod_eq_of_lt (Nat.lt_trans hlt (by decide))
    have hshift : (0 - Format.binary64.targetExponent (totalExponent n 0)).toNat = places := by
      rw [targetExponent_eq]
      omega
    have hrounded : Float.Model.UnpackedFloat.ofUInt64 .binary64 n.toUInt64 =
        .finite .positive (n * 2 ^ places) (-(places : Int)) hpos' := by
      rw [Float.Model.UnpackedFloat.ofUInt64, hword, Float.Model.UnpackedFloat.ofNat,
        Float.Model.UnpackedFloat.ofInt,
        Float.Model.UnpackedFloat.normalize, Int.compare_eq_gt.2 (by omega)]
      unfold Float.Model.UnpackedFloat.round Float.Model.UnpackedFloat.decreaseExponent
      dsimp only
      rw [Int.toNat_natCast, hshift, Nat.shiftLeft_eq]
      have hexact := roundWithAccuracy_mul_pow hcanonical hpos' .positive 0
      rw [Nat.pow_zero, Nat.mul_one, Nat.cast_zero, Int.sub_zero] at hexact
      rw [Int.zero_sub]
      exact hexact
    change ofFloat (.ofModel (.pack (Float.Model.UnpackedFloat.ofUInt64 .binary64 n.toUInt64))) = _
    rw [hrounded]
    exact ofFloat_pack_finite hcanonical hpos'

theorem ofFloat_ofNat_short {n : Nat} (hpos : 0 < n) (hlt : n < 2 ^ 53) :
    ∃ mantissa exponent, ofFloat (Float.ofNat n) = .finite false mantissa exponent ∧
      Faithful n mantissa exponent := by
  obtain ⟨mantissa, exponent, hcanonical, hpos', hvalue, hfloat⟩ := ofFloat_toFloat hpos hlt
  refine ⟨mantissa, exponent, ?_, .of_eq hcanonical hvalue⟩
  rw [ofNat_short hlt]
  change ofFloat
    (.ofModel (.pack (Float.Model.UnpackedFloat.mul .binary64 n.toUInt64.toFloat.toModel.unpack
    (Float.ofBits 0x3FF0000000000000).toModel.unpack))) = _
  rw [unpack_one, @unpack_of_ofFloat _ .positive _ _ hpos' hfloat]
  change ofFloat (.ofModel
    (.pack (roundWithAccuracy .binary64 .positive (mantissa * 2 ^ 52) (exponent + -52) .exact))) = _
  have hexact := roundWithAccuracy_mul_pow hcanonical hpos' .positive 52
  change roundWithAccuracy .binary64 .positive (mantissa * 2 ^ 52) (exponent + -52)
    .exact = _ at hexact
  rw [hexact]
  exact ofFloat_pack_finite hcanonical hpos'

theorem ofFloat_ofNat_long {n : Nat} (hle : 2 ^ 53 ≤ n) (hlt : n < 2 ^ 64) :
    ∃ mantissa exponent, ofFloat (Float.ofNat n) = .finite false mantissa exponent ∧
      Faithful n mantissa exponent := by
  have hn : n ≠ 0 := by omega
  have hlow : 53 ≤ n.log2 := (Nat.le_log2 hn).2 hle
  have hhigh : n.log2 < 64 := (Nat.log2_lt hn).2 hlt
  obtain ⟨places, hlog⟩ : ∃ places, n.log2 = 52 + places := ⟨n.log2 - 52, by omega⟩
  obtain ⟨rounded, mantissa, exponent, hpos, hround, hcanonical, hsame, hrounded⟩ :=
    roundWithAccuracy_long hlog (by omega)
  refine ⟨mantissa, exponent, ?_,
    .of_rounded (hlog ▸ Nat.log2_self_le hn) hcanonical hsame hrounded⟩
  have hscientific : Float.Model.UnpackedFloat.ofScientific .binary64 n 0 =
      roundWithAccuracy .binary64 .positive (n * 2 ^ 53) (-53) .exact := by
    have hbits : (2 : Int) ^ Format.binary64.exponentBits = 2048 := rfl
    unfold Float.Model.UnpackedFloat.ofScientific
    rw [dif_neg hn, hbits, if_neg (by decide), if_neg (by omega), if_pos (Int.le_refl 0)]
    change roundWithAccuracy .binary64 .positive (n <<< 53 * 1) (-53) .exact = _
    rw [Nat.mul_one, Nat.shiftLeft_eq]
  rw [ofNat_long hle]
  change ofFloat (.ofModel (.pack (Float.Model.UnpackedFloat.ofScientific .binary64 n 0))) = _
  rw [hscientific, hround]
  exact ofFloat_pack_finite hcanonical hpos

/-- Every 64-bit number becomes a double that no other double separates from it. -/
theorem exists_faithful {n : Nat} (hn : n < 2 ^ 64) :
    ∃ mantissa exponent, ofFloat (Float.ofNat n) = .finite false mantissa exponent ∧
    Faithful n mantissa exponent := by
  rcases Nat.eq_zero_or_pos n with rfl | hpos
  · exact ⟨0, -1074,
      by decide +kernel, .of_eq ⟨by decide, by decide, by decide, .inr rfl⟩ (by simp [magnitude])⟩
  · by_cases hshort : n < 2 ^ 53
    · exact ofFloat_ofNat_short hpos hshort
    · exact ofFloat_ofNat_long (Nat.le_of_not_lt hshort) hn

theorem ofFloat_neg {x : Float} {negative : Bool} {mantissa : Nat} {exponent : Int}
    (h : ofFloat x = .finite negative mantissa exponent) :
    ofFloat x.neg = .finite (!negative) mantissa exponent := by
  have hcanonical := canonical_ofFloat h
  rw [ofFloat_eq] at h
  change ofFloat (.ofModel (.pack x.toModel.unpack.neg)) = _
  cases hunpacked : x.toModel.unpack with
  | notANumber | infinity _ =>
      rw [hunpacked] at h
      cases h
  | zero sign =>
      rw [hunpacked, ofUnpacked, Binary.finite.injEq] at h
      obtain ⟨rfl, rfl, rfl⟩ := h
      cases sign <;> decide +kernel
  | finite sign mantissa' exponent' hpos =>
      rw [hunpacked, ofUnpacked, Binary.finite.injEq] at h
      obtain ⟨rfl, rfl, rfl⟩ := h
      change ofFloat (.ofModel (.pack (.finite (-sign) mantissa' exponent' hpos))) = _
      rw [ofFloat_pack_finite hcanonical]
      cases sign <;> rfl

end Binary
end TraitScript
