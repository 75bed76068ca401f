import Mathlib
import TraitScript.Number.Binary

/-!
# What the bits of a double stand for

A double is read off its bits in two ways: by whole-number arithmetic on all the bits, and by taking
the fields apart. Both agree, so what is packed into the bits can be read again, and different
doubles stand for different things.
-/

namespace TraitScript

open Float.Model (Format UnpackedFloat)
open Float.Model.UnpackedFloat
  (Sign roundWithAccuracy unpackSign unpackExponent unpackMantissa packComponents)

namespace Binary

/-! ### Bits and fields -/

theorem ofFloat_bits (x : Float) : ofFloat x =
    if x.toBits.toNat / 2 ^ 52 % 2 ^ 11 = 2047 then
      if x.toBits.toNat % 2 ^ 52 = 0 then .infinite (decide (2 ^ 63 ≤ x.toBits.toNat)) else .nan
    else if x.toBits.toNat / 2 ^ 52 % 2 ^ 11 = 0 then
      .finite (decide (2 ^ 63 ≤ x.toBits.toNat)) (x.toBits.toNat % 2 ^ 52) (-1074)
    else .finite (decide (2 ^ 63 ≤ x.toBits.toNat)) (2 ^ 52 + x.toBits.toNat % 2 ^ 52)
      (((x.toBits.toNat / 2 ^ 52 % 2 ^ 11 : Nat) : Int) - 1075) :=
  rfl

/-- A mantissa and an exponent that a double can have. Only with the least exponent the mantissa may
be short. -/
structure Canonical (mantissa : Nat) (exponent : Int) : Prop where
  lt : mantissa < 2 ^ 53
  least : -1074 ≤ exponent
  greatest : exponent ≤ 971
  full : 2 ^ 52 ≤ mantissa ∨ exponent = -1074

theorem canonical_ofFloat {x : Float} {negative : Bool} {mantissa : Nat} {exponent : Int}
    (h : ofFloat x = .finite negative mantissa exponent) :
    Canonical mantissa exponent := by
  rw [ofFloat_bits] at h
  split at h
  · split at h <;> cases h
  · split at h
    · cases h
      exact ⟨by omega, by omega, by omega, .inr rfl⟩
    · cases h
      exact ⟨by omega, by omega, by omega, .inl (by omega)⟩

def signBit (negative : Bool) : Nat := if negative then 2 ^ 63 else 0

theorem toBits_of_finite {x : Float} {negative : Bool} {mantissa : Nat} {exponent : Int}
    (h : ofFloat x = .finite negative mantissa exponent) :
    (x.toBits.toNat : Int) = signBit negative + (exponent + 1074) * 2 ^ 52 + mantissa := by
  have hlt : x.toBits.toNat < 2 ^ 64 := x.toBits.toNat_lt
  rw [ofFloat_bits] at h
  rw [signBit]
  split at h
  · split at h <;> cases h
  · split at h <;>
    · cases h
      simp only [decide_eq_true_eq]
      split <;> omega

theorem toBits_of_infinite {x : Float} {negative : Bool} (h : ofFloat x = .infinite negative) :
    (x.toBits.toNat : Int) = signBit negative + 2047 * 2 ^ 52 := by
  have hlt : x.toBits.toNat < 2 ^ 64 := x.toBits.toNat_lt
  rw [ofFloat_bits] at h
  rw [signBit]
  split at h
  · split at h
    · cases h
      simp only [decide_eq_true_eq]
      split <;> omega
    · cases h
  · split at h <;> cases h

def isNegative : Sign → Bool
  | .negative => true
  | .positive => false

/-- What a double stands for, from its fields. -/
def ofUnpacked : UnpackedFloat → Binary
  | .notANumber => .nan
  | .infinity sign => .infinite (isNegative sign)
  | .zero sign => .finite (isNegative sign) 0 (-1074)
  | .finite sign mantissa exponent _ => .finite (isNegative sign) mantissa exponent

theorem toNat_unpackMantissa (b : BitVec 64) :
    (@unpackMantissa .binary64 b).toNat = b.toNat % 2 ^ 52 := by
  simp [unpackMantissa]

theorem toNat_unpackExponent (b : BitVec 64) :
    (@unpackExponent .binary64 b).toNat = b.toNat / 2 ^ 52 % 2 ^ 11 := by
  simp [unpackExponent, Nat.shiftRight_eq_div_pow]

theorem isNegative_unpackSign (b : BitVec 64) :
    isNegative (Sign.ofBitVec (@unpackSign .binary64 b)) = decide (2 ^ 63 ≤ b.toNat) := by
  have hbit : (@unpackSign .binary64 b).toNat = b.toNat / 2 ^ 63 % 2 := by
    simp [unpackSign, Nat.shiftRight_eq_div_pow]
  have hlt := b.isLt
  rw [Sign.ofBitVec]
  by_cases hpositive : @unpackSign .binary64 b = 0#1
  · rw [if_pos hpositive]
    rw [hpositive, BitVec.toNat_ofNat, Nat.zero_mod] at hbit
    exact (decide_eq_false (by omega)).symm
  · rw [if_neg hpositive]
    have hne : (@unpackSign .binary64 b).toNat ≠ 0 :=
      fun hzero => hpositive (BitVec.eq_of_toNat_eq hzero)
    exact (decide_eq_true (by omega)).symm

theorem toNat_append_one (m : BitVec 52) : (1#1 ++ m).toNat = 2 ^ 52 + m.toNat := by
  rw [BitVec.toNat_append, ← Nat.shiftLeft_add_eq_or_of_lt m.isLt]
  rfl

theorem ofFloat_eq (x : Float) : ofFloat x = ofUnpacked x.toModel.unpack := by
  have hmantissa : (@unpackMantissa .binary64 x.toBits.toBitVec).toNat = x.toBits.toNat % 2 ^ 52 :=
    toNat_unpackMantissa _
  have hexponent : (@unpackExponent .binary64 x.toBits.toBitVec).toNat =
      x.toBits.toNat / 2 ^ 52 % 2 ^ 11 := toNat_unpackExponent _
  have hsign : isNegative (Sign.ofBitVec (@unpackSign .binary64 x.toBits.toBitVec)) =
      decide (2 ^ 63 ≤ x.toBits.toNat) := isNegative_unpackSign _
  have hall : @unpackExponent .binary64 x.toBits.toBitVec = -1#11 ↔
      x.toBits.toNat / 2 ^ 52 % 2 ^ 11 = 2047 := by
    rw [← hexponent, ← BitVec.toNat_inj]
    rfl
  have hnone : @unpackExponent .binary64 x.toBits.toBitVec = 0#11 ↔
      x.toBits.toNat / 2 ^ 52 % 2 ^ 11 = 0 := by
    rw [← hexponent, ← BitVec.toNat_inj]
    rfl
  have hempty : @unpackMantissa .binary64 x.toBits.toBitVec = 0#52 ↔
      x.toBits.toNat % 2 ^ 52 = 0 := by
    rw [← hmantissa, ← BitVec.toNat_inj]
    rfl
  rw [ofFloat_bits, ← hsign]
  change _ = ofUnpacked (UnpackedFloat.unpack .binary64 x.toBits.toBitVec)
  unfold Float.Model.UnpackedFloat.unpack
  dsimp only
  by_cases hspecial : x.toBits.toNat / 2 ^ 52 % 2 ^ 11 = 2047
  · rw [if_pos hspecial, if_pos (hall.2 hspecial)]
    by_cases hfraction : x.toBits.toNat % 2 ^ 52 = 0
    · rw [if_pos hfraction, if_pos (hempty.2 hfraction)]
      rfl
    · rw [if_neg hfraction, if_neg (mt hempty.1 hfraction)]
      rfl
  · rw [if_neg hspecial, if_neg (mt hall.1 hspecial)]
    by_cases hshort : x.toBits.toNat / 2 ^ 52 % 2 ^ 11 = 0
    · rw [if_pos hshort, if_pos (hnone.2 hshort)]
      by_cases hfraction : x.toBits.toNat % 2 ^ 52 = 0
      · rw [dif_pos (hempty.2 hfraction), hfraction]
        rfl
      · rw [dif_neg (mt hempty.1 hfraction), ofUnpacked, hmantissa, hexponent, hshort]
        rfl
    · rw [if_neg hshort, if_neg (mt hnone.1 hshort), ofUnpacked, toNat_append_one,
        hmantissa, hexponent]
      rfl

/-- There is one double that is no number. -/
theorem toBits_of_nan {x : Float} (h : ofFloat x = .nan) :
    x.toBits.toBitVec = Float.Model.UnpackedFloat.packedNaN .binary64 := by
  rw [ofFloat_bits] at h
  split at h
  next hspecial =>
    split at h
    next => cases h
    next hfraction =>
      refine x.toModel.valid.eq_packedNaN (BitVec.eq_of_toNat_eq ?_) fun hzero => hfraction ?_
      · exact (toNat_unpackExponent _).trans hspecial
      · exact (toNat_unpackMantissa _).symm.trans (congrArg BitVec.toNat hzero)
  next => split at h <;> cases h

/-- Different doubles stand for different things. -/
theorem ofFloat_injective : Function.Injective ofFloat := by
  intro x y h
  rw [← Float.toBits_inj]
  cases hx : ofFloat x with
  | nan => exact UInt64.toBitVec_inj.1 ((toBits_of_nan hx).trans (toBits_of_nan (h ▸ hx)).symm)
  | infinite negative =>
    exact UInt64.toNat_inj.1
      (Int.ofNat_inj.1 ((toBits_of_infinite hx).trans (toBits_of_infinite (h ▸ hx)).symm))
  | finite negative mantissa exponent =>
      exact UInt64.toNat_inj.1
        (Int.ofNat_inj.1 ((toBits_of_finite hx).trans (toBits_of_finite (h ▸ hx)).symm))

/-! ### Packing -/

theorem toNat_packComponents (sign : Sign) (exponent : BitVec 11) (mantissa : BitVec 52) :
    (packComponents .binary64 sign exponent mantissa).toNat =
      signBit (isNegative sign) + exponent.toNat * 2 ^ 52 + mantissa.toNat := by
  rw [packComponents, BitVec.toNat_append, ← Nat.shiftLeft_add_eq_or_of_lt mantissa.isLt,
    BitVec.toNat_append,
    ← Nat.shiftLeft_add_eq_or_of_lt exponent.isLt, Nat.shiftLeft_eq, Nat.shiftLeft_eq, Nat.add_mul,
    Nat.mul_assoc]
  cases sign <;> rfl

theorem ofFloat_packComponents {x : Float} {sign : Sign} {exponent : BitVec 11}
    {mantissa : BitVec 52}
    (h : x.toBits.toBitVec = packComponents .binary64 sign exponent mantissa) : ofFloat x =
      if exponent.toNat = 2047 then if mantissa.toNat = 0 then .infinite (isNegative sign) else .nan
      else if exponent.toNat = 0 then .finite (isNegative sign) mantissa.toNat (-1074)
      else .finite (isNegative sign) (2 ^ 52 + mantissa.toNat) ((exponent.toNat : Int) - 1075) := by
  have hbits : x.toBits.toNat =
      signBit (isNegative sign) + exponent.toNat * 2 ^ 52 + mantissa.toNat :=
    (congrArg BitVec.toNat h).trans (toNat_packComponents sign exponent mantissa)
  have hsign : signBit (isNegative sign) = 2 ^ 63 ∧ isNegative sign = true ∨
      signBit (isNegative sign) = 0 ∧ isNegative sign = false := by
    cases sign
    · exact .inl ⟨rfl, rfl⟩
    · exact .inr ⟨rfl, rfl⟩
  have hexponent := exponent.isLt
  have hmantissa := mantissa.isLt
  have hnegative : decide (2 ^ 63 ≤ x.toBits.toNat) = isNegative sign := by
    rcases hsign with ⟨hbit, hsign⟩ | ⟨hbit, hsign⟩
    · rw [hsign]
      exact decide_eq_true (by omega)
    · rw [hsign]
      exact decide_eq_false (by omega)
  have hfield : x.toBits.toNat / 2 ^ 52 % 2 ^ 11 = exponent.toNat := by omega
  have hfraction : x.toBits.toNat % 2 ^ 52 = mantissa.toNat := by omega
  rw [ofFloat_bits, hnegative, hfield, hfraction]

theorem ofFloat_pack_finite {sign : Sign} {mantissa : Nat} {exponent : Int}
    (h : Canonical mantissa exponent) (hpos : 0 < mantissa) :
    ofFloat (.ofModel (.pack (.finite sign mantissa exponent hpos))) =
      .finite (isNegative sign) mantissa exponent := by
  obtain ⟨hlt, hleast, hgreatest, hfull⟩ := h
  have hfits : ¬ 2 ^ 11 ≤ (exponent + (1023 : Nat) + (52 : Nat)).toNat + 1 := by omega
  have hbits : (Float.ofModel (.pack (.finite sign mantissa exponent hpos))).toBits.toBitVec =
      if mantissa.log2 + 1 = 53 then
        packComponents .binary64 sign (BitVec.ofNat 11 (exponent + (1023 : Nat) + (52 : Nat)).toNat)
          (BitVec.ofNat 52 mantissa)
      else packComponents .binary64 sign 0#11 (BitVec.ofNat 52 mantissa) := if_neg hfits
  by_cases hlong : 2 ^ 52 ≤ mantissa
  · have hlog : mantissa.log2 = 52 := (Nat.log2_eq_iff (Nat.ne_of_gt hpos)).2 ⟨hlong, hlt⟩
    rw [hlog, if_pos rfl] at hbits
    rw [ofFloat_packComponents hbits, BitVec.toNat_ofNat, BitVec.toNat_ofNat, if_neg (by omega),
      if_neg (by omega)]
    congr 1 <;> omega
  · have hlog : ¬ mantissa.log2 + 1 = 53 := by
      have := (Nat.log2_lt (Nat.ne_of_gt hpos)).2 (Nat.lt_of_not_le hlong)
      omega
    rw [if_neg hlog] at hbits
    rw [ofFloat_packComponents hbits, BitVec.toNat_ofNat, BitVec.toNat_ofNat, if_neg (by decide),
      if_pos (by decide), hfull.resolve_left hlong,
      Nat.mod_eq_of_lt (Nat.lt_of_not_le hlong)]

theorem ne_nan_of_packComponents {x : Float} {sign : Sign} {exponent : BitVec 11}
    {mantissa : BitVec 52} (h : x.toBits.toBitVec = packComponents .binary64 sign exponent mantissa)
    (hfields : exponent.toNat ≠ 2047 ∨ mantissa.toNat = 0) :
    ofFloat x ≠ .nan := by
  rw [ofFloat_packComponents h]
  split
  next hspecial =>
    rw [if_pos (hfields.resolve_left fun hne => hne hspecial)]
    exact nofun
  next => split <;> exact nofun

/-- Nothing but what is no number is packed into the double that is no number. -/
theorem ofFloat_pack_ne_nan {u : UnpackedFloat} (h : u ≠ .notANumber) :
    ofFloat (.ofModel (.pack u)) ≠ .nan := by
  cases u with
  | notANumber => exact absurd rfl h
  | infinity sign => exact @ne_nan_of_packComponents _ sign (-1#11) 0#52 rfl (.inr rfl)
  | zero sign => exact @ne_nan_of_packComponents _ sign 0#11 0#52 rfl (.inr rfl)
  | finite sign mantissa exponent hpos =>
      by_cases hover : 2 ^ 11 ≤ (exponent + (1023 : Nat) + (52 : Nat)).toNat + 1
      · exact @ne_nan_of_packComponents _ sign (-1#11) 0#52 (if_pos hover) (.inr rfl)
      · by_cases hlong : mantissa.log2 + 1 = 53
        · refine ne_nan_of_packComponents ((if_neg hover).trans (if_pos hlong)) (.inl ?_)
          rw [BitVec.toNat_ofNat]
          change (exponent + (1023 : Nat) + (52 : Nat)).toNat % 2 ^ 11 ≠ 2047
          omega
        · exact @ne_nan_of_packComponents _ sign 0#11 (BitVec.ofNat 52 mantissa)
            ((if_neg hover).trans (if_neg hlong)) (.inl (by decide))

/-! ### Operations that give numbers -/

theorem roundWithAccuracy_ne_nan (sign : Sign) (mantissa : Nat) (exponent : Int)
    (accuracy : UnpackedFloat.Accuracy) :
    roundWithAccuracy .binary64 sign mantissa exponent accuracy ≠ .notANumber := by
  unfold roundWithAccuracy
  dsimp only
  split <;> exact nofun

theorem mul_ne_nan {u v : UnpackedFloat} {sign : Sign} {mantissa : Nat} {exponent : Int}
    {hpos : 0 < mantissa} (h : u ≠ .notANumber)
    (hfinite : v = .finite sign mantissa exponent hpos) :
    UnpackedFloat.mul .binary64 u v ≠ .notANumber := by
  subst hfinite
  cases u with
  | notANumber => exact absurd rfl h
  | infinity | zero => exact nofun
  | finite => exact roundWithAccuracy_ne_nan _ _ _ _

theorem div_ne_nan {u v : UnpackedFloat} {sign : Sign} {mantissa : Nat} {exponent : Int}
    {hpos : 0 < mantissa} (h : u ≠ .notANumber)
    (hfinite : v = .finite sign mantissa exponent hpos) :
    UnpackedFloat.div .binary64 u v ≠ .notANumber := by
  subst hfinite
  cases u with
  | notANumber => exact absurd rfl h
  | infinity | zero => exact nofun
  | finite => exact roundWithAccuracy_ne_nan _ _ _ _

theorem unpack_ne_nan {x : Float} (h : ofFloat x ≠ .nan) : x.toModel.unpack ≠ .notANumber := by
  intro hnan
  rw [ofFloat_eq, hnan] at h
  exact h rfl

theorem ofFloat_toFloat_ne_nan (n : UInt64) : ofFloat n.toFloat ≠ .nan := by
  refine ofFloat_pack_ne_nan ?_
  rw [UnpackedFloat.ofUInt64, UnpackedFloat.ofNat, UnpackedFloat.ofInt, UnpackedFloat.normalize]
  rcases Nat.eq_zero_or_pos n.toNat with hzero | hpos
  · rw [hzero]
    exact nofun
  · rw [Int.compare_eq_gt.2 (by omega)]
    exact roundWithAccuracy_ne_nan _ _ _ _

theorem exists_unpack_powerOfTen :
    ∀ e, (h : e < Float.exactlyRepresentablePowersOfTen.size) →
      ∃ sign mantissa exponent, ∃ hpos : 0 < mantissa,
    Float.exactlyRepresentablePowersOfTen[e].toModel.unpack =
      .finite sign mantissa exponent hpos := by
  have hall : ∀ e : Fin Float.exactlyRepresentablePowersOfTen.size,
      (match Float.exactlyRepresentablePowersOfTen[e.val].toModel.unpack with
      | .finite .. => true
      | _ => false) = true := by decide +kernel
  intro e h
  have hpower := hall ⟨e, h⟩
  split at hpower
  next sign mantissa exponent hpos hunpacked => exact ⟨sign, mantissa, exponent, hpos, hunpacked⟩
  next => cases hpower

/-- A decimal is always read as a number, large ones as infinity. -/
theorem ofFloat_ofScientific_ne_nan (mantissa : Nat) (negative : Bool) (exponent : Nat) :
    ofFloat (Float.ofScientific mantissa negative exponent) ≠ .nan := by
  unfold Float.ofScientific
  split
  next hshort =>
    obtain ⟨sign, mantissa', exponent', hpos, hpower⟩ :=
      exists_unpack_powerOfTen exponent (Nat.lt_succ_of_le hshort.2)
    have hfirst := unpack_ne_nan (ofFloat_toFloat_ne_nan mantissa.toUInt64)
    cases negative
    · exact ofFloat_pack_ne_nan (mul_ne_nan hfirst hpower)
    · exact ofFloat_pack_ne_nan (div_ne_nan hfirst hpower)
  next =>
    refine ofFloat_pack_ne_nan ?_
    unfold UnpackedFloat.ofScientific
    generalize (if negative = true then Int.negOfNat exponent else Int.ofNat exponent) = power
    by_cases hzero : mantissa = 0
    · rw [dif_pos hzero]
      exact nofun
    · rw [dif_neg hzero]
      by_cases hlarge : power > 2 ^ Float.Model.Format.binary64.exponentBits
      · rw [if_pos hlarge]
        exact nofun
      · rw [if_neg hlarge]
        by_cases hsmall : power <
          -(2 ^ Float.Model.Format.binary64.exponentBits + (mantissa.log2 : Int))
        · rw [if_pos hsmall]
          exact nofun
        · rw [if_neg hsmall]
          split
          · exact mul_ne_nan nofun rfl
          · exact div_ne_nan nofun rfl

end Binary
end TraitScript
