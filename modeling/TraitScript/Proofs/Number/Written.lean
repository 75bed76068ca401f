import TraitScript.Number.Written
import TraitScript.Proofs.Number.Shortest

/-!
# Numbers in trees are told apart

The text of a finite number in a tree consists of digits and one point, after a minus sign if the
number is negative. Taken as a decimal it reads back as the number, so different numbers have
different texts.
-/

namespace TraitScript

open Binary (ofFloat Canonical canonical_ofFloat)

namespace Decimal

/-- The number that digits stand for, the decimals after a point. -/
def readDigits (text : List Char) : ℚ :=
  let whole := text.takeWhile (· != '.')
  let fraction := (text.dropWhile (· != '.')).tail
  (Nat.ofDigitChars 10 (whole ++ fraction) 0 : ℚ) / 10 ^ fraction.length

theorem readDigits_point {whole : List Char} (h : '.' ∉ whole) (fraction : List Char) :
    readDigits (whole ++ '.' :: fraction) =
      (Nat.ofDigitChars 10 (whole ++ fraction) 0 : ℚ) / 10 ^ fraction.length := by
  have hwhole : ∀ c ∈ whole, (c != '.') = true := fun c hc => bne_iff_ne.2 fun heq => h (heq ▸ hc)
  have htake : (whole ++ '.' :: fraction).takeWhile (· != '.') = whole := by
    rw [List.takeWhile_append_of_pos hwhole]
    simp
  have hdrop : (whole ++ '.' :: fraction).dropWhile (· != '.') = '.' :: fraction := by
    rw [List.dropWhile_append_of_pos hwhole]
    simp
  rw [readDigits, htake, hdrop, List.tail_cons]

theorem readDigits_whole {whole : List Char} (h : '.' ∉ whole) :
    readDigits whole = (Nat.ofDigitChars 10 whole 0 : ℚ) := by
  have hwhole : ∀ c ∈ whole, (c != '.') = true := fun c hc => bne_iff_ne.2 fun heq => h (heq ▸ hc)
  rw [readDigits, List.takeWhile_eq_self_iff.2 hwhole, List.dropWhile_eq_nil_iff.2 hwhole]
  simp

/-- Digits, perhaps with a point between them. -/
def IsNumeral (text : List Char) : Prop := text ≠ [] ∧ ∀ c ∈ text, c.isDigit = true ∨ c = '.'

theorem isDigit_of_mem_toDigits {n : Nat} {c : Char} (h : c ∈ Nat.toDigits 10 n) :
    c.isDigit = true :=
  Nat.isDigit_of_mem_toDigits (by decide) (by decide) h

theorem point_notMem {text : List Char} (h : ∀ c ∈ text, c.isDigit = true) : '.' ∉ text :=
  fun hmem => absurd (h '.' hmem) (by decide)

theorem isDigit_of_mem_zeros {count : Nat} {c : Char} (h : c ∈ List.replicate count '0') :
    c.isDigit = true := by
  rw [List.eq_of_mem_replicate h]
  rfl

/-- The digits of a decimal, with a point if there are decimals, stand for its coefficient and its
exponent. -/
theorem positional_cases (d : Decimal) :
    (0 ≤ d.exponent ∧ d.positional.toList = Nat.toDigits 10 d.coefficient ++
      List.replicate d.exponent.toNat '0') ∨
      ∃ whole fraction, d.positional.toList = whole ++ '.' :: fraction ∧
        (∀ c ∈ whole ++ fraction, c.isDigit = true) ∧
        d.exponent = -(fraction.length : Int) ∧
        Nat.ofDigitChars 10 (whole ++ fraction) 0 = d.coefficient := by
  unfold positional zeros
  by_cases hexponent : 0 ≤ d.exponent
  · exact .inl ⟨hexponent, by simp [hexponent]⟩
  · right
    rw [if_neg hexponent]
    dsimp only
    by_cases hshort : (-d.exponent).toNat < (Nat.toDigits 10 d.coefficient).length
    · rw [if_pos hshort]
      let whole := (Nat.toDigits 10 d.coefficient).length - (-d.exponent).toNat
      refine ⟨(Nat.toDigits 10 d.coefficient).take whole,
        (Nat.toDigits 10 d.coefficient).drop whole, ?_, ?_, ?_, ?_⟩
      · simp [whole]
      · rw [List.take_append_drop]
        exact fun c hc => isDigit_of_mem_toDigits hc
      · rw [List.length_drop]
        omega
      · rw [List.take_append_drop, Nat.ofDigitChars_ten_toDigits]
    · rw [if_neg hshort]
      refine ⟨['0'], List.replicate ((-d.exponent).toNat - (Nat.toDigits 10 d.coefficient).length)
        '0' ++ Nat.toDigits 10 d.coefficient, ?_, ?_, ?_, ?_⟩
      · simp
      · intro c hc
        rw [List.mem_append, List.mem_singleton, List.mem_append] at hc
        rcases hc with rfl | hc | hc
        · rfl
        · exact isDigit_of_mem_zeros hc
        · exact isDigit_of_mem_toDigits hc
      · rw [List.length_append, List.length_replicate]
        omega
      · rw [Nat.ofDigitChars_append, Nat.ofDigitChars_append, Nat.ofDigitChars_replicate_zero]
        exact Nat.ofDigitChars_ten_toDigits

theorem isNumeral_positional (d : Decimal) : IsNumeral d.positional.toList := by
  rcases d.positional_cases with ⟨-, htext⟩ | ⟨whole, fraction, htext, hdigits, -, -⟩
  · rw [htext]
    refine ⟨fun hnil => Nat.toDigits_ne_nil (List.append_eq_nil_iff.1 hnil).1, fun c hc => .inl ?_⟩
    exact (List.mem_append.1 hc).elim isDigit_of_mem_toDigits isDigit_of_mem_zeros
  · rw [htext]
    refine ⟨by simp, fun c hc => ?_⟩
    rcases List.mem_append.1 hc with hwhole | hrest
    · exact .inl (hdigits c (List.mem_append_left _ hwhole))
    · rcases List.mem_cons.1 hrest with rfl | hfraction
      · exact .inr rfl
      · exact .inl (hdigits c (List.mem_append_right _ hfraction))

theorem readDigits_positional (d : Decimal) : readDigits d.positional.toList = d.value := by
  rcases d.positional_cases with
    ⟨hexponent, htext⟩ | ⟨whole, fraction, htext, hdigits, hexponent, hcoefficient⟩
  · obtain ⟨power, hpower⟩ := Int.eq_ofNat_of_zero_le hexponent
    rw [htext, hpower, Int.toNat_natCast, readDigits_whole (point_notMem fun c hc =>
      (List.mem_append.1 hc).elim isDigit_of_mem_toDigits isDigit_of_mem_zeros),
        Nat.ofDigitChars_append, Nat.ofDigitChars_replicate_zero,
      Nat.ofDigitChars_ten_toDigits, value, hpower, zpow_natCast]
    push_cast
    ring
  · rw [htext, readDigits_point (point_notMem fun c hc => hdigits c (List.mem_append_left _ hc)),
      hcoefficient, value, hexponent, zpow_neg,
      zpow_natCast, div_eq_mul_inv]

end Decimal

namespace Number

open Decimal

/-- The text of a finite number reads back as the number, after its sign. -/
theorem inTree_finite {x : Float} {negative : Bool} {mantissa : Nat} {exponent : Int}
    (h : ofFloat x = .finite negative mantissa exponent) :
    ∃ text, (inTree x).toList = (sign negative).toList ++ text ∧ IsNumeral text ∧
      (Interval.ofBinary mantissa exponent).Holds (readDigits text) := by
  rw [inTree, h]
  dsimp only
  by_cases hwhole : Binary.isIntegral mantissa exponent = true
  · rw [if_pos hwhole]
    refine ⟨Nat.toDigits 10 (Binary.truncate mantissa exponent) ++ '.' :: ['0'], ?_,
      ⟨by simp, fun c hc => ?_⟩, ?_⟩
    · simp [digits]
    · rcases List.mem_append.1 hc with hdigit | hrest
      · exact .inl (isDigit_of_mem_toDigits hdigit)
      · simp only [List.mem_cons, List.not_mem_nil, or_false] at hrest
        rcases hrest with rfl | rfl
        · exact .inr rfl
        · exact .inl rfl
    · have hvalue := (Binary.truncate_le mantissa exponent).2.2.1 hwhole
      rw [readDigits_point (point_notMem fun c hc => isDigit_of_mem_toDigits hc),
        Nat.ofDigitChars_append, Nat.ofDigitChars_ten_toDigits]
      have hread : ((Nat.ofDigitChars 10 ['0'] (Binary.truncate mantissa exponent) : Nat) : ℚ) /
          10 ^ ['0'].length = Binary.magnitude mantissa exponent := by
        rw [hvalue]
        simp [Nat.ofDigitChars_cons]
      rw [hread]
      exact holds_magnitude mantissa exponent
  · rw [if_neg hwhole, plain]
    have hpos : 0 < mantissa := by
      refine Nat.pos_of_ne_zero fun hzero => hwhole ?_
      rw [hzero, Binary.isIntegral, Nat.zero_mod]
      simp
    refine ⟨_, String.toList_append .., isNumeral_positional _, ?_⟩
    rw [readDigits_positional]
    exact holds_shortest .up (canonical_ofFloat h) hpos

theorem sign_eq_of_append {negative negative' : Bool} {text text' : List Char} (h : IsNumeral text)
    (h' : IsNumeral text')
    (heq : (sign negative).toList ++ text = (sign negative').toList ++ text') :
    negative = negative' ∧ text = text' := by
  have hminus : ∀ {text : List Char}, IsNumeral text → ∀ rest, '-' :: rest ≠ text := by
    rintro _ ⟨-, hchars⟩ rest rfl
    exact absurd (hchars '-' (List.mem_cons_self ..)) (by decide)
  cases negative <;> cases negative'
  · exact ⟨rfl, heq⟩
  · exact absurd heq.symm (hminus h _)
  · exact absurd heq (hminus h' _)
  · exact ⟨rfl, List.cons_injective heq⟩

/-- Different finite numbers have different texts. -/
theorem inTree_injective {x y : Float} (hx : (ofFloat x).value? ≠ none)
    (hy : (ofFloat y).value? ≠ none) (h : inTree x = inTree y) : x = y := by
  obtain ⟨v, hv⟩ := Option.ne_none_iff_exists'.1 hx
  obtain ⟨w, hw⟩ := Option.ne_none_iff_exists'.1 hy
  obtain ⟨negative, mantissa, exponent, hfloat, -⟩ := Binary.exists_finite_of_value? hv
  obtain ⟨negative', mantissa', exponent', hfloat', -⟩ := Binary.exists_finite_of_value? hw
  obtain ⟨text, htext, hnumeral, hreads⟩ := inTree_finite hfloat
  obtain ⟨text', htext', hnumeral', hreads'⟩ := inTree_finite hfloat'
  obtain ⟨rfl, rfl⟩ := sign_eq_of_append hnumeral hnumeral' (by rw [← htext, ← htext', h])
  obtain ⟨rfl, rfl⟩ :=
    eq_of_holds (canonical_ofFloat hfloat) (canonical_ofFloat hfloat') hreads hreads'
  exact Binary.ofFloat_injective (hfloat.trans hfloat'.symm)

end Number
end TraitScript
