import MotionScript.MathFunction.Apply
import MotionScript.Proofs.Number.Order
import MotionScript.Proofs.Number.Rounding
/-!
# The integer that a sample selects

A sample below one is at most `1 - 1 / 2 ^ 24`.  On the way to the selected integer it is rounded
three times in double precision, and each time its value grows by at most one part in `2 ^ 52`.
Together that is less than what the sample is short of one, so the product with the number of
integers stays below that number and the selected integer is within the bounds.
-/

namespace MotionScript

open Float.Model (Format UnpackedFloat)
open Float.Model.UnpackedFloat
open MotionScript.Parts

/-! ### Samples -/

namespace Single

theorem isNaN_of_lt {x y : Float32} (hlt : x < y) : x.isNaN = false := by
  change decide (x.toModel.unpack.lt y.toModel.unpack = true) = true at hlt
  rw [decide_eq_true_iff, UnpackedFloat.lt, beq_iff_eq] at hlt
  change x.toModel.unpack.isNaN = false
  cases hparts : x.toModel.unpack with
  | notANumber => rw [hparts] at hlt; cases hlt
  | _ => rfl

/-- The parts of a number of the unit interval without its upper end. -/
theorem unpack_of_unit {sample : Float32} (hlow : 0 ≤ sample) (hhigh : sample < 1) :
    (∃ sign, sample.toModel.unpack = .zero sign) ∨
      ∃ mantissa exponent, ∃ hpos : 0 < mantissa,
        sample.toModel.unpack = .finite .positive mantissa exponent hpos ∧ mantissa < 2 ^ 24 ∧
          -149 ≤ exponent ∧ exponent ≤ -24 := by
  have hnumber := isNaN_of_lt hhigh
  have hcanonical := canonical_parts sample
  have hnonneg : 0 ≤ level sample := (le_iff (by decide) hnumber).1 hlow
  have hbelow : level sample < 127 * 2 ^ 23 := (lt_iff hnumber (by decide)).1 hhigh
  have hnumber' : sample.toModel.unpack.isNaN = false := hnumber
  rw [level] at hnonneg hbelow
  cases hparts : sample.toModel.unpack with
  | notANumber => rw [hparts] at hnumber'; cases hnumber'
  | infinity sign =>
      rw [hparts] at hnonneg hbelow
      cases sign with
      | positive => exact absurd hbelow (by decide)
      | negative => exact absurd hnonneg (by decide)
  | zero sign => exact Or.inl ⟨sign, rfl⟩
  | finite sign mantissa exponent hpos =>
      rw [hparts] at hcanonical hnonneg hbelow
      cases sign with
      | negative => exact absurd hnonneg (Int.not_le.2 (place_negative hcanonical))
      | positive =>
          obtain ⟨hmost, hleast, -, hform⟩ := hcanonical
          simp only [place, Sign.apply, magnitude] at hbelow
          exact Or.inr ⟨mantissa, exponent, hpos, rfl, hmost, hleast, by omega⟩

end Single

/-! ### Three roundings -/

namespace Dice

/-- What a value grows by at most when it is rounded in double precision. -/
def growth : ℚ := 1 + 1 / 2 ^ 52

/-- A sample below one is short of one by more than three roundings can add. -/
theorem short_of_one : (1 - 1 / 2 ^ 24) * growth * growth * growth < 1 := by
  norm_num [growth]

/-- A sample of 24 bits lies below one by at least its last bit. -/
theorem weight_sample_le {mantissa : Nat} {exponent : Int} (hmost : mantissa < 2 ^ 24)
    (hhigh : exponent ≤ -24) : weight mantissa exponent ≤ 1 - 1 / 2 ^ 24 := by
  have hmantissa : (mantissa : ℚ) ≤ 2 ^ 24 - 1 := by
    exact_mod_cast (by omega : (mantissa : Int) ≤ 2 ^ 24 - 1)
  have hunit : (2 : ℚ) ^ exponent ≤ 2 ^ (-24 : Int) :=
    zpow_le_zpow_right₀ (by norm_num) hhigh
  calc
    weight mantissa exponent ≤ (2 ^ 24 - 1) * 2 ^ (-24 : Int) := by
      rw [weight]
      gcongr
    _ = 1 - 1 / 2 ^ 24 := by norm_num

/-- Values that double precision has normal numbers for. -/
theorem inRange_binary64 {mantissa : Nat} {exponent : Int}
    (hleast : -1022 ≤ mantissa.log2 + exponent) (hmost : mantissa.log2 + exponent < 1023) :
    InRange .binary64 mantissa exponent where
  least := hleast
  most := by
    change _ + ((1023 : Nat) : Int) + 2 < 2 ^ 11
    omega

/-- A sample keeps its value, up to a rounding, when it is widened. -/
theorem unpack_widen {sample : Float32} {mantissa : Nat} {exponent : Int} {hpos : 0 < mantissa}
    (hparts : sample.toModel.unpack = .finite .positive mantissa exponent hpos)
    (hmost : mantissa < 2 ^ 24) (hlow : -149 ≤ exponent) (hhigh : exponent ≤ -24) :
    ∃ mantissa' exponent',
      ∃ hnormalizes : Normalizes .binary64 mantissa exponent mantissa' exponent',
        (Single.widen sample).toModel.unpack =
          .finite .positive mantissa' exponent' hnormalizes.pos := by
  have hlog : mantissa.log2 < 24 := (Nat.log2_lt (Nat.ne_of_gt hpos)).2 hmost
  have hrange : InRange .binary64 mantissa exponent :=
    inRange_binary64 (by omega) (by omega)
  obtain ⟨mantissa', exponent', hnormalizes, hround⟩ :=
    round_normal .positive hpos hrange (show (-1074 : Int) ≤ exponent by omega)
  refine ⟨mantissa', exponent', hnormalizes, ?_⟩
  change unpack .binary64 (pack .binary64 (Single.fit .binary64 sample.toModel.unpack)) = _
  rw [hparts, Single.fit, hround]
  exact hnormalizes.normal.unpack_pack .positive hnormalizes.pos

/-- A positive integer keeps its value, up to a rounding, as a number in double precision. -/
theorem unpack_ofInt64 {n : Int64} (hpos : 0 < n.toInt) :
    ∃ mantissa' exponent', ∃ hnormalizes : Normalizes .binary64 n.toInt.toNat 0 mantissa' exponent',
      (Scale.ofInt64 n : Float).toModel.unpack =
        .finite .positive mantissa' exponent' hnormalizes.pos := by
  have hpositive : 0 < n.toInt.toNat := by omega
  have hlog : n.toInt.toNat.log2 < 63 := by
    have hlt := n.toInt_lt
    exact (Nat.log2_lt (Nat.ne_of_gt hpositive)).2 (by omega)
  have hrange : InRange .binary64 n.toInt.toNat 0 :=
    inRange_binary64 (by omega) (by omega)
  obtain ⟨mantissa', exponent', hnormalizes, hround⟩ :=
    round_normal .positive hpositive hrange (show (-1074 : Int) ≤ 0 by omega)
  refine ⟨mantissa', exponent', hnormalizes, ?_⟩
  change unpack .binary64 (pack .binary64
    (UnpackedFloat.normalize .binary64 n.toInt 0 .positive)) = _
  rw [UnpackedFloat.normalize, Int.compare_eq_gt.2 hpos]
  dsimp only
  rw [hround]
  exact hnormalizes.normal.unpack_pack .positive hnormalizes.pos

/-- A product of normal numbers that is far from the bounds of the format is rounded once. -/
theorem unpack_mul {left right : Float} {m₁ m₂ : Nat} {e₁ e₂ : Int} {hpos₁ : 0 < m₁}
    {hpos₂ : 0 < m₂} (hleft : left.toModel.unpack = .finite .positive m₁ e₁ hpos₁)
    (hright : right.toModel.unpack = .finite .positive m₂ e₂ hpos₂)
    (hnormal₁ : IsNormal .binary64 m₁ e₁) (hnormal₂ : IsNormal .binary64 m₂ e₂)
    (hlow : -1000 ≤ e₁ + e₂) (hhigh : e₁ + e₂ ≤ 900) :
    ∃ mantissa exponent,
      ∃ hnormalizes : Normalizes .binary64 (m₁ * m₂) (e₁ + e₂) mantissa exponent,
        (left * right).toModel.unpack = .finite .positive mantissa exponent hnormalizes.pos := by
  have hpos : 0 < m₁ * m₂ := Nat.mul_pos hpos₁ hpos₂
  have hleast : 2 ^ 52 * 2 ^ 52 ≤ m₁ * m₂ := Nat.mul_le_mul hnormal₁.least hnormal₂.least
  have hmost : m₁ * m₂ < 2 ^ 53 * 2 ^ 53 := Nat.mul_lt_mul'' hnormal₁.most hnormal₂.most
  rw [← Nat.pow_add] at hleast hmost
  have hlog := (Nat.le_log2 (Nat.ne_of_gt hpos)).2 hleast
  have hlog' := (Nat.log2_lt (Nat.ne_of_gt hpos)).2 hmost
  have hlong : Format.binary64.mantissaBitsWithoutImplicit ≤ (m₁ * m₂).log2 := by
    change 52 ≤ _
    omega
  have hrange : InRange .binary64 (m₁ * m₂) (e₁ + e₂) :=
    inRange_binary64 (by omega) (by omega)
  obtain ⟨mantissa, exponent, hnormalizes, hround⟩ := roundWithAccuracy_normal .positive hpos hlong
    hrange (show (-1074 : Int) ≤ e₁ + e₂ by omega)
  refine ⟨mantissa, exponent, hnormalizes, ?_⟩
  change unpack .binary64 (pack .binary64
    (UnpackedFloat.mul .binary64 left.toModel.unpack right.toModel.unpack)) = _
  rw [hleft, hright]
  change unpack .binary64 (pack .binary64
    (roundWithAccuracy .binary64 .positive (m₁ * m₂) (e₁ + e₂) .exact)) = _
  rw [hround]
  exact hnormalizes.normal.unpack_pack .positive hnormalizes.pos

/-- The number without its fraction, where it is within 64 bits. -/
theorem toInt_toInt64 {x : Float} {mantissa : Nat} {exponent : Int} {hpos : 0 < mantissa}
    (hparts : x.toModel.unpack = .finite .positive mantissa exponent hpos)
    (hbelow : weight mantissa exponent < Int64.maxValue.toInt) :
    (Scale.toInt64 x).toInt = ⌊weight mantissa exponent⌋ := by
  have hnonneg : 0 ≤ ⌊weight mantissa exponent⌋ :=
    Int.floor_nonneg.2 (weight_pos hpos exponent).le
  have hfloor : ⌊weight mantissa exponent⌋ < Int64.maxValue.toInt := Int.floor_lt.2 hbelow
  change (Int64.ofIntClamp (UnpackedFloat.toInt _ _ x.toModel.unpack)).toInt = _
  rw [hparts]
  change (Int64.ofIntClamp (roundToInt .positive mantissa exponent)).toInt = _
  rw [roundToInt_eq]
  exact Int64.toInt_ofIntClamp (hnonneg.trans' (by decide)) hfloor.le

/-! ### Selected integers -/

/-- The zeros select the first integer. -/
theorem toInt_toInt64_mul_of_zero {sample : Float32} {sign : Sign} {right : Float} {mantissa : Nat}
    {exponent : Int} {hpos : 0 < mantissa} (hzero : sample.toModel.unpack = .zero sign)
    (hright : right.toModel.unpack = .finite .positive mantissa exponent hpos) :
    (Scale.toInt64 (Single.widen sample * right)).toInt = 0 := by
  have hwidened : (Single.widen sample).toModel.unpack = .zero sign := by
    change unpack .binary64 (pack .binary64 (Single.fit .binary64 sample.toModel.unpack)) = _
    rw [hzero]
    cases sign <;> rfl
  have hproduct : (Single.widen sample * right).toModel.unpack = .zero (sign * .positive) := by
    change unpack .binary64 (pack .binary64
      (UnpackedFloat.mul .binary64 (Single.widen sample).toModel.unpack right.toModel.unpack)) = _
    rw [hwidened, hright]
    change unpack .binary64 (pack .binary64 (.zero (sign * .positive))) = _
    cases sign <;> rfl
  change (Int64.ofIntClamp
    (UnpackedFloat.toInt _ _ (Single.widen sample * right).toModel.unpack)).toInt = 0
  rw [hproduct]
  rfl

/-- Three roundings leave the product of a sample and a count below the count. -/
theorem weight_product_lt {mantissa m₁ m₂ m : Nat} {exponent e₁ e₂ e : Int} {count : Int64}
    (hmost : mantissa < 2 ^ 24) (hhigh : exponent ≤ -24) (hcount : 0 < count.toInt)
    (hwidened : Normalizes .binary64 mantissa exponent m₁ e₁)
    (hcounted : Normalizes .binary64 count.toInt.toNat 0 m₂ e₂)
    (hmultiplied : Normalizes .binary64 (m₁ * m₂) (e₁ + e₂) m e) :
    weight m e < count.toInt := by
  have hcountPos : (0 : ℚ) < count.toInt := Int.cast_pos.2 hcount
  have hinteger : weight count.toInt.toNat 0 = count.toInt := by
    rw [weight, zpow_zero, mul_one, ← Int.cast_natCast, Int.toNat_of_nonneg hcount.le]
  have hgrowth : 0 < growth := by norm_num [growth]
  have hleft : weight m₁ e₁ ≤ (1 - 1 / 2 ^ 24) * growth := by
    refine hwidened.weight_le.trans ?_
    exact mul_le_mul_of_nonneg_right (weight_sample_le hmost hhigh) hgrowth.le
  have hright : weight m₂ e₂ ≤ count.toInt * growth := hinteger ▸ hcounted.weight_le
  calc
    weight m e ≤ weight (m₁ * m₂) (e₁ + e₂) * growth := hmultiplied.weight_le
    _ = weight m₁ e₁ * weight m₂ e₂ * growth := by rw [weight_mul]
    _ ≤ (1 - 1 / 2 ^ 24) * growth * (count.toInt * growth) * growth := by
        gcongr
        exact (weight_pos hcounted.pos e₂).le
    _ = (1 - 1 / 2 ^ 24) * growth * growth * growth * count.toInt := by ring
    _ < 1 * count.toInt := mul_lt_mul_of_pos_right short_of_one hcountPos
    _ = count.toInt := one_mul _

/-- A sample of the unit interval selects one of the integers below a count. -/
theorem scaled_bounds {sample : Float32} (hlow : 0 ≤ sample) (hhigh : sample < 1) {count : Int64}
    (hcount : 0 < count.toInt) :
    0 ≤ (Scale.toInt64 (Single.widen sample * Scale.ofInt64 count)).toInt ∧
      (Scale.toInt64 (Single.widen sample * Scale.ofInt64 count)).toInt < count.toInt := by
  obtain ⟨m₂, e₂, hcounted, hright⟩ := unpack_ofInt64 hcount
  obtain ⟨sign, hzero⟩ | ⟨mantissa, exponent, hpos, hparts, hmost, hleast, hgreatest⟩ :=
    Single.unpack_of_unit hlow hhigh
  · rw [toInt_toInt64_mul_of_zero hzero hright]
    exact ⟨Int.le_refl 0, hcount⟩
  · obtain ⟨m₁, e₁, hwidened, hleft⟩ := unpack_widen hparts hmost hleast hgreatest
    have hlog : mantissa.log2 < 24 := (Nat.log2_lt (Nat.ne_of_gt hpos)).2 hmost
    have hlog' : count.toInt.toNat.log2 < 63 := by
      have hlt := count.toInt_lt
      exact (Nat.log2_lt (by omega)).2 (by omega)
    have hge₁ : _ - (52 : Int) ≤ e₁ := hwidened.exponent_ge
    have hle₁ : e₁ ≤ _ - (52 : Int) + 1 := hwidened.exponent_le
    have hge₂ : _ - (52 : Int) ≤ e₂ := hcounted.exponent_ge
    have hle₂ : e₂ ≤ _ - (52 : Int) + 1 := hcounted.exponent_le
    obtain ⟨m, e, hmultiplied, hproduct⟩ := unpack_mul hleft hright hwidened.normal
      hcounted.normal (by omega) (by omega)
    have hweight : weight m e < count.toInt :=
      weight_product_lt hmost hgreatest hcount hwidened hcounted hmultiplied
    have hmax : weight m e < Int64.maxValue.toInt :=
      hweight.trans_le (Int.cast_le.2 count.toInt_le)
    rw [toInt_toInt64 hproduct hmax]
    exact ⟨Int.floor_nonneg.2 (weight_pos hmultiplied.pos e).le, Int.floor_lt.2 hweight⟩

/-- A sum that is within 64 bits does not wrap around. -/
theorem toInt_add_of_isInt64 {x y : Int64} (hwithin : IsInt64 (x.toInt + y.toInt)) :
    (x + y).toInt = x.toInt + y.toInt := by
  obtain ⟨hlow, hhigh⟩ := hwithin
  have hmin : Int64.minValue.toInt = -2 ^ 63 := rfl
  have hmax : Int64.maxValue.toInt = 2 ^ 63 - 1 := rfl
  rw [Int64.toInt_add]
  exact Int.bmod_eq_of_le (by omega) (by omega)

theorem toInt_difference {lower upper : Int64} (hordered : lower.toInt ≤ upper.toInt)
    (hspan : upper.toInt - lower.toInt + 1 ≤ Int64.maxValue.toInt) :
    (upper - lower).toInt = upper.toInt - lower.toInt := by
  have hmax : Int64.maxValue.toInt = 2 ^ 63 - 1 := rfl
  rw [Int64.toInt_sub]
  exact Int.bmod_eq_of_le (by omega) (by omega)

/-- The size of a range that is not too wide is computed without overflow. -/
theorem toInt_span {lower upper : Int64} (hordered : lower.toInt ≤ upper.toInt)
    (hspan : upper.toInt - lower.toInt + 1 ≤ Int64.maxValue.toInt) :
    (upper - lower + 1).toInt = upper.toInt - lower.toInt + 1 := by
  have hdifference := toInt_difference hordered hspan
  have hmin : Int64.minValue.toInt = -2 ^ 63 := rfl
  have hone : (1 : Int64).toInt = 1 := rfl
  rw [toInt_add_of_isInt64 ⟨by omega, by omega⟩, hdifference, hone]

/-- Every sample of the unit interval selects an integer within the bounds. -/
theorem integer_bounds {lower upper : Int64} (hordered : lower.toInt ≤ upper.toInt)
    (hspan : upper.toInt - lower.toInt + 1 ≤ Int64.maxValue.toInt) {sample : Float32}
    (hlow : 0 ≤ sample) (hhigh : sample < 1) :
    lower.toInt ≤ (integer lower upper sample).toInt ∧
      (integer lower upper sample).toInt ≤ upper.toInt := by
  have hcount := toInt_span hordered hspan
  obtain ⟨hnonneg, hbelow⟩ := scaled_bounds hlow hhigh (show 0 < (upper - lower + 1).toInt by omega)
  have hleast := lower.minValue_le_toInt
  have hmost := upper.toInt_le
  rw [integer, select, toInt_add_of_isInt64 ⟨by omega, by omega⟩]
  omega

end Dice

end MotionScript
