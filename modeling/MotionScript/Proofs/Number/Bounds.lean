import MotionScript.Proofs.Number.Rounding
/-!
# Rounding up to a power of two

Every power of two that is not too great for the format is a number of it, and rounding does not
carry a value past such a number: a mantissa that reaches it has no bits left to round.  So what is
at most a power of two is still at most that after rounding.
-/

namespace MotionScript.Parts

open Float.Model (Format UnpackedFloat totalExponent)
open Float.Model.UnpackedFloat

variable {format : Format} {mantissa limit bits : Nat} {exponent : Int}

/-! ### Rounding up to a limit -/

/-- What a cut mantissa stands for is at most a limit. -/
def IsAtMost (limit : Nat) (extended : ExtendedMantissa) : Prop :=
  extended.mantissa < limit ∨ extended = ⟨limit, false, false⟩

namespace IsAtMost

variable {extended : ExtendedMantissa}

theorem shiftRightOne (hmost : IsAtMost (limit * 2) extended) :
    IsAtMost limit extended.shiftRightOne := by
  obtain hless | rfl := hmost
  · exact Or.inl (Nat.div_lt_of_lt_mul (Nat.mul_comm limit 2 ▸ hless))
  · exact Or.inr (by simp [ExtendedMantissa.shiftRightOne])

/-- Cutting bits off a mantissa divides its limit. -/
theorem shiftRight {shift : Nat} (hmost : IsAtMost (limit * 2 ^ shift) extended) :
    IsAtMost limit (extended >>> shift) := by
  change IsAtMost limit (Nat.repeat ExtendedMantissa.shiftRightOne shift extended)
  induction shift generalizing limit with
  | zero => rwa [Nat.pow_zero, Nat.mul_one] at hmost
  | succ shift ih =>
      rw [Nat.pow_succ', ← Nat.mul_assoc] at hmost
      exact (ih hmost).shiftRightOne

/-- Rounding up stays within a limit, as nothing is left to round at the limit itself. -/
theorem roundedMantissa_le (hmost : IsAtMost limit extended) :
    extended.roundedMantissa ≤ limit := by
  obtain hless | rfl := hmost
  · exact (roundedMantissa_bounds extended).2.trans hless
  · exact Nat.le_refl limit

end IsAtMost

/-! ### Values up to a power of two -/

/-- A value within a power of two has its first bit there at most. -/
theorem log2_add_le (hpos : 0 < mantissa) (hvalue : weight mantissa exponent ≤ 2 ^ bits) :
    mantissa.log2 + exponent ≤ bits := by
  have hleast : 2 ^ mantissa.log2 ≤ mantissa := Nat.log2_self_le (Nat.ne_of_gt hpos)
  have hpow : (2 : ℚ) ^ (mantissa.log2 + exponent) ≤ 2 ^ (bits : Int) := by
    rw [zpow_add₀ two_ne_zero, zpow_natCast, zpow_natCast]
    refine le_trans ?_ hvalue
    rw [weight]
    gcongr
    exact_mod_cast hleast
  exact (zpow_le_zpow_iff_right₀ one_lt_two).1 hpow

theorem weight_le_iff (hlow : exponent ≤ bits) :
    weight mantissa exponent ≤ 2 ^ bits ↔ mantissa ≤ 2 ^ (bits - exponent).toNat := by
  have hpow : (2 : ℚ) ^ bits = (2 ^ (bits - exponent).toNat : Nat) * 2 ^ exponent := by
    rw [Nat.cast_pow, Nat.cast_ofNat, ← zpow_natCast, ← zpow_natCast, ← zpow_add₀ two_ne_zero]
    congr 1
    omega
  rw [weight, hpow, mul_le_mul_iff_left₀ (by positivity), Nat.cast_le]

/-! ### Rounding -/

/-- A mantissa that is cut where the format has its exponent fits the format. -/
theorem fitsBelow_shiftRight (hpos : 0 < mantissa) {shift : Nat}
    (hshift : exponent + shift = format.targetExponent (totalExponent mantissa exponent)) :
    FitsBelow format (mantissa >>> shift) (exponent + shift) := by
  have hleast : 2 ^ mantissa.log2 ≤ mantissa := Nat.log2_self_le (Nat.ne_of_gt hpos)
  have hmost : mantissa < 2 ^ (mantissa.log2 + 1) := Nat.lt_log2_self
  rw [Format.targetExponent, totalExponent, Format.mantissaBits] at hshift
  rw [Nat.shiftRight_eq_div_pow]
  refine ⟨?_, by omega, ?_⟩
  · rw [Nat.div_lt_iff_lt_mul (Nat.two_pow_pos _), ← Nat.pow_add]
    exact hmost.trans_le (Nat.pow_le_pow_right Nat.two_pos (by omega))
  · by_cases hmin : exponent + shift = format.minExponent
    · exact Or.inr hmin
    · refine Or.inl ((Nat.le_div_iff_mul_le (Nat.two_pow_pos _)).2 ?_)
      rw [← Nat.pow_add]
      exact (Nat.pow_le_pow_right Nat.two_pos (by omega)).trans hleast

/-- One unit more fits the format after what it carries beyond the length was cut again. -/
theorem FitsBelow.carry (hfits : FitsBelow format mantissa exponent) {rounded : Nat}
    (hup : mantissa ≤ rounded) :
    FitsBelow format (rounded >>> excess format rounded) (exponent + excess format rounded) := by
  obtain ⟨-, hlow, hform⟩ := hfits
  obtain rfl | hpos := Nat.eq_zero_or_pos rounded
  · obtain rfl : mantissa = 0 := Nat.le_zero.1 hup
    have hzero : excess format 0 = 0 := Nat.zero_sub _
    rw [hzero]
    refine ⟨Nat.two_pow_pos _, by omega, Or.inr ?_⟩
    have hpow := Nat.two_pow_pos format.mantissaBitsWithoutImplicit
    omega
  · obtain ⟨hleast, hmost⟩ := shiftRight_bounds format hpos
    refine ⟨hmost, by omega, ?_⟩
    by_cases hlength : 2 ^ format.mantissaBitsWithoutImplicit ≤ rounded
    · have hlog := (Nat.le_log2 (Nat.ne_of_gt hpos)).2 hlength
      rw [Nat.min_eq_right hlog] at hleast
      exact Or.inl hleast
    · have hshort := (Nat.log2_lt (Nat.ne_of_gt hpos)).2 (Nat.not_le.1 hlength)
      have hmin := hform.resolve_left fun hlong => hlength (hlong.trans hup)
      rw [excess]
      omega

/-- Rounding makes a value fit the format, and keeps it within a power of two. -/
theorem roundWithAccuracy_le (sign : Sign) (hpos : 0 < mantissa)
    (hform : format.mantissaBitsWithoutImplicit ≤ mantissa.log2 ∨ exponent ≤ format.minExponent)
    (hvalue : weight mantissa exponent ≤ 2 ^ bits) :
    ∃ mantissa' exponent', FitsBelow format mantissa' exponent' ∧
      weight mantissa' exponent' ≤ 2 ^ bits ∧
      roundWithAccuracy format sign mantissa exponent .exact =
        if hzero : mantissa' = 0 then .zero sign
        else .finite sign mantissa' exponent' (Nat.pos_of_ne_zero hzero) := by
  have hlog := log2_add_le hpos hvalue
  have hmin : format.minExponent ≤ 0 := by
    have hpow : (0 : Int) < 2 ^ (format.exponentBits - 1) := by positivity
    have hm := format.hm
    rw [Format.minExponent, Format.mantissaBits]
    omega
  obtain ⟨shift, hshift⟩ : ∃ shift : Nat,
      exponent + shift = format.targetExponent (totalExponent mantissa exponent) := by
    refine ⟨(format.targetExponent (totalExponent mantissa exponent) - exponent).toNat, ?_⟩
    rw [Format.targetExponent, totalExponent, Format.mantissaBits]
    omega
  have hfits := fitsBelow_shiftRight hpos hshift
  have hlow : exponent + shift ≤ bits := by
    rw [hshift, Format.targetExponent, totalExponent, Format.mantissaBits]
    omega
  generalize hcut : ExtendedMantissa.ofMantissaAndAccuracy mantissa .exact >>> shift = cut
  have hmantissa : cut.mantissa = mantissa >>> shift := by
    rw [← hcut, mantissa_exact_shiftRight]
  have hfirst : shiftToTargetExponent format mantissa exponent .exact =
      (cut, exponent + shift) := by
    have hamount : (exponent + shift - exponent).toNat = shift := by omega
    rw [shiftToTargetExponent, ← hshift, shiftToExponent, hamount, hcut]
  have hmost : IsAtMost (2 ^ (bits - (exponent + shift)).toNat) cut := by
    rw [← hcut]
    apply IsAtMost.shiftRight
    have hle := (weight_le_iff (show exponent ≤ bits by omega)).1 hvalue
    rw [← Nat.pow_add]
    have hsum : (bits - (exponent + shift)).toNat + shift = (bits - exponent).toNat := by omega
    rw [hsum]
    obtain hless | hequal := hle.lt_or_eq
    · exact Or.inl hless
    · exact Or.inr (by rw [← hequal]; rfl)
  have hrounded := hmost.roundedMantissa_le
  obtain ⟨hup, -⟩ := roundedMantissa_bounds cut
  rw [← hmantissa] at hfits
  have hkept : weight (cut.roundedMantissa >>> excess format cut.roundedMantissa)
      (exponent + shift + excess format cut.roundedMantissa) ≤ 2 ^ bits :=
    (weight_shiftRight_le _ _ _).trans ((weight_le_iff hlow).2 hrounded)
  refine ⟨_, _, hfits.carry hup, hkept, ?_⟩
  rw [roundWithAccuracy, hfirst]
  dsimp only
  rw [shiftToTargetExponent_eq hfits.low]
  dsimp only
  simp only [mantissa_exact_shiftRight]

end MotionScript.Parts
