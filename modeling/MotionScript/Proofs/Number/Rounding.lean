import MotionScript.Proofs.Number.Format
/-!
# Rounding into a format

Rounding cuts a mantissa to the length of the format and then goes up by at most one unit of its
last bit.  So the value of a number with a mantissa of full length grows by at most one part in as
many as the mantissa has units, and what is smaller than the least number of the format is the only
thing that is lost.
-/

namespace MotionScript.Parts

open Float.Model (Format UnpackedFloat totalExponent)
open Float.Model.UnpackedFloat

variable {format : Format} {mantissa : Nat} {exponent : Int}

/-! ### Values -/

/-- The value of a mantissa at an exponent. -/
def weight (mantissa : Nat) (exponent : Int) : ℚ :=
  mantissa * 2 ^ exponent

theorem weight_pos (hpos : 0 < mantissa) (exponent : Int) : 0 < weight mantissa exponent := by
  have hmantissa : (0 : ℚ) < mantissa := Nat.cast_pos.2 hpos
  rw [weight]
  positivity

theorem weight_mul (m₁ m₂ : Nat) (e₁ e₂ : Int) :
    weight (m₁ * m₂) (e₁ + e₂) = weight m₁ e₁ * weight m₂ e₂ := by
  rw [weight, weight, weight, zpow_add₀ two_ne_zero, Nat.cast_mul]
  ring

theorem weight_shiftLeft (mantissa shift : Nat) (exponent : Int) :
    weight (mantissa <<< shift) (exponent - shift) = weight mantissa exponent := by
  rw [weight, weight, Nat.shiftLeft_eq, zpow_sub₀ two_ne_zero, zpow_natCast]
  push_cast
  field_simp

/-- Dropping bits does not make a number greater. -/
theorem weight_shiftRight_le (mantissa shift : Nat) (exponent : Int) :
    weight (mantissa >>> shift) (exponent + shift) ≤ weight mantissa exponent := by
  have hquotient : ((mantissa / 2 ^ shift : Nat) : ℚ) * 2 ^ shift ≤ mantissa := by
    exact_mod_cast Nat.div_mul_le_self mantissa (2 ^ shift)
  rw [weight, weight, Nat.shiftRight_eq_div_pow, zpow_add₀ two_ne_zero, zpow_natCast]
  calc
    ((mantissa / 2 ^ shift : Nat) : ℚ) * (2 ^ exponent * 2 ^ shift)
        = (mantissa / 2 ^ shift : Nat) * 2 ^ shift * 2 ^ exponent := by ring
    _ ≤ mantissa * 2 ^ exponent := by gcongr

theorem weight_le_of_le {m₁ m₂ : Nat} (hle : m₁ ≤ m₂) (exponent : Int) :
    weight m₁ exponent ≤ weight m₂ exponent := by
  have hcast : (m₁ : ℚ) ≤ m₂ := Nat.cast_le.2 hle
  rw [weight, weight]
  gcongr

theorem weight_succ (mantissa : Nat) (exponent : Int) :
    weight (mantissa + 1) exponent = weight mantissa exponent + 2 ^ exponent := by
  rw [weight, weight, Nat.cast_succ, add_mul, one_mul]

/-! ### Cutting a mantissa -/

theorem mantissa_shiftRight (extended : ExtendedMantissa) (shift : Nat) :
    (extended >>> shift).mantissa = extended.mantissa >>> shift := by
  change (Nat.repeat ExtendedMantissa.shiftRightOne shift extended).mantissa = _
  induction shift with
  | zero => rfl
  | succ shift ih => rw [Nat.repeat, ExtendedMantissa.shiftRightOne, ih, Nat.shiftRight_succ]

theorem mantissa_exact_shiftRight (mantissa shift : Nat) :
    (ExtendedMantissa.ofMantissaAndAccuracy mantissa .exact >>> shift).mantissa =
      mantissa >>> shift :=
  mantissa_shiftRight _ shift

/-- Taking the fraction away takes the floor of the value, apart from the sign. -/
theorem roundToInt_eq (sign : Sign) (mantissa : Nat) (exponent : Int) :
    roundToInt sign mantissa exponent = sign.apply ⌊weight mantissa exponent⌋ := by
  have hinteger : roundToInt sign mantissa exponent =
      sign.apply ((mantissa <<< exponent.toNat >>> (-exponent).toNat : Nat) : Int) := by
    have hshift : (0 - (exponent - (exponent.toNat : Int))).toNat = (-exponent).toNat := by omega
    change sign.apply ((ExtendedMantissa.ofMantissaAndAccuracy
      (mantissa <<< (exponent - 0).toNat) .exact >>>
        (0 - (exponent - ((exponent - 0).toNat : Int))).toNat).mantissa : Int) = _
    rw [Int.sub_zero, hshift, mantissa_exact_shiftRight]
  rw [hinteger]
  congr 1
  obtain ⟨places, rfl | rfl⟩ := exponent.eq_nat_or_neg
  · have hvalue : weight mantissa places = (mantissa <<< places : Nat) := by
      rw [weight, Nat.shiftLeft_eq, zpow_natCast]
      push_cast
      rfl
    rw [hvalue, Int.floor_natCast]
    simp
  · have hvalue : weight mantissa (-places) = (mantissa : ℚ) / (2 ^ places : Nat) := by
      rw [weight, zpow_neg, zpow_natCast, div_eq_mul_inv]
      push_cast
      rfl
    rw [hvalue, Rat.floor_natCast_div_natCast]
    simp [Nat.shiftRight_eq_div_pow]

theorem roundedMantissa_bounds (extended : ExtendedMantissa) :
    extended.mantissa ≤ extended.roundedMantissa ∧
      extended.roundedMantissa ≤ extended.mantissa + 1 := by
  rw [ExtendedMantissa.roundedMantissa]
  cases extended.accuracy with
  | exact => exact ⟨Nat.le_refl _, Nat.le_succ _⟩
  | inexact ordering =>
      cases ordering <;> simp only [Accuracy.roundToNearestEven] <;> omega

/-- The number of bits by which a mantissa is longer than those of the format. -/
def excess (format : Format) (mantissa : Nat) : Nat :=
  mantissa.log2 - format.mantissaBitsWithoutImplicit

/-- Above the least exponent a mantissa loses the bits that the format has no place for. -/
theorem shiftToTargetExponent_eq (hlow : format.minExponent ≤ exponent) (mantissa : Nat)
    (accuracy : Accuracy) :
    shiftToTargetExponent format mantissa exponent accuracy =
      (ExtendedMantissa.ofMantissaAndAccuracy mantissa accuracy >>> excess format mantissa,
        exponent + excess format mantissa) := by
  have hshift : (format.targetExponent (totalExponent mantissa exponent) - exponent).toNat =
      excess format mantissa := by
    rw [Format.targetExponent, totalExponent, Format.mantissaBits, excess]
    omega
  rw [shiftToTargetExponent, shiftToExponent, hshift]

/-- What is left of a mantissa has the length of the format, or all the bits that there were. -/
theorem shiftRight_bounds (format : Format) (hpos : 0 < mantissa) :
    2 ^ min mantissa.log2 format.mantissaBitsWithoutImplicit ≤
        mantissa >>> excess format mantissa ∧
      mantissa >>> excess format mantissa < 2 ^ (format.mantissaBitsWithoutImplicit + 1) := by
  have hleast : 2 ^ mantissa.log2 ≤ mantissa := Nat.log2_self_le (Nat.ne_of_gt hpos)
  have hmost : mantissa < 2 ^ (mantissa.log2 + 1) := Nat.lt_log2_self
  rw [Nat.shiftRight_eq_div_pow, excess]
  constructor
  · rw [Nat.le_div_iff_mul_le (Nat.two_pow_pos _), ← Nat.pow_add]
    rwa [show min mantissa.log2 format.mantissaBitsWithoutImplicit +
      (mantissa.log2 - format.mantissaBitsWithoutImplicit) = mantissa.log2 by omega]
  · rw [Nat.div_lt_iff_lt_mul (Nat.two_pow_pos _), ← Nat.pow_add]
    exact hmost.trans_le (Nat.pow_le_pow_right Nat.two_pos (by omega))

/-! ### Rounding -/

/-- Parts that fit the format, though their exponent may be too great for it. -/
structure FitsBelow (format : Format) (mantissa : Nat) (exponent : Int) : Prop where
  most : mantissa < 2 ^ (format.mantissaBitsWithoutImplicit + 1)
  low : format.minExponent ≤ exponent
  form : 2 ^ format.mantissaBitsWithoutImplicit ≤ mantissa ∨ exponent = format.minExponent

/-- What rounding makes of a mantissa at an exponent. -/
structure Rounds (format : Format) (mantissa : Nat) (exponent : Int) (mantissa' : Nat)
    (exponent' : Int) : Prop where
  pos : 0 < mantissa'
  most : mantissa' < 2 ^ (format.mantissaBitsWithoutImplicit + 1)
  /-- A mantissa that is long enough keeps the length of the format. -/
  least : format.mantissaBitsWithoutImplicit ≤ mantissa.log2 →
    2 ^ format.mantissaBitsWithoutImplicit ≤ mantissa'
  exponent_ge : exponent + excess format mantissa ≤ exponent'
  exponent_le : exponent' ≤ exponent + excess format mantissa + 1
  /-- A mantissa that is too short stays at its exponent, unless it reaches the full length. -/
  short : 2 ^ format.mantissaBitsWithoutImplicit ≤ mantissa' ∨ exponent' = exponent
  weight_le : weight mantissa' exponent' ≤
    weight mantissa exponent + 2 ^ (exponent + excess format mantissa)

/-- One unit more makes the mantissa at most one bit longer than the format. -/
theorem excess_le_one {rounded : Nat} (hpos : 0 < rounded)
    (hmost : rounded ≤ 2 ^ (format.mantissaBitsWithoutImplicit + 1)) :
    excess format rounded ≤ 1 := by
  have hnext : rounded < 2 ^ (format.mantissaBitsWithoutImplicit + 2) :=
    hmost.trans_lt (Nat.pow_lt_pow_right (by decide) (by omega))
  have hlog := (Nat.log2_lt (Nat.ne_of_gt hpos)).2 hnext
  rw [excess]
  omega

/-- The value that is left after a mantissa was cut, went up by at most one unit and was cut
again. -/
theorem weight_rounded_le {rounded : Nat}
    (hstep : rounded ≤ mantissa >>> excess format mantissa + 1) (exponent : Int) :
    weight (rounded >>> excess format rounded)
        (exponent + excess format mantissa + excess format rounded) ≤
      weight mantissa exponent + 2 ^ (exponent + excess format mantissa) := by
  calc
    weight (rounded >>> excess format rounded)
          (exponent + excess format mantissa + excess format rounded)
        ≤ weight rounded (exponent + excess format mantissa) := weight_shiftRight_le _ _ _
    _ ≤ weight (mantissa >>> excess format mantissa + 1) (exponent + excess format mantissa) :=
        weight_le_of_le hstep _
    _ = weight (mantissa >>> excess format mantissa) (exponent + excess format mantissa) +
          2 ^ (exponent + excess format mantissa) := weight_succ _ _
    _ ≤ weight mantissa exponent + 2 ^ (exponent + excess format mantissa) := by
        gcongr
        exact weight_shiftRight_le _ _ _

/-- A mantissa that was cut to the length of the format goes up by at most one unit, and what that
carries beyond the length is cut again. -/
theorem rounds_of_bounds (hpos : 0 < mantissa) {rounded : Nat}
    (hup : mantissa >>> excess format mantissa ≤ rounded)
    (hstep : rounded ≤ mantissa >>> excess format mantissa + 1) (exponent : Int) :
    Rounds format mantissa exponent (rounded >>> excess format rounded)
      (exponent + excess format mantissa + excess format rounded) := by
  obtain ⟨hleast, hmost⟩ := shiftRight_bounds format hpos
  have hroundedPos : 0 < rounded := (Nat.two_pow_pos _).trans_le (hleast.trans hup)
  obtain ⟨hleast', hmost'⟩ := shiftRight_bounds format hroundedPos
  have hcarry := excess_le_one hroundedPos (hstep.trans hmost)
  have hfull (hlength : 2 ^ format.mantissaBitsWithoutImplicit ≤ rounded) :
      2 ^ format.mantissaBitsWithoutImplicit ≤ rounded >>> excess format rounded := by
    have hlog := (Nat.le_log2 (Nat.ne_of_gt hroundedPos)).2 hlength
    rwa [Nat.min_eq_right hlog] at hleast'
  have hkept (hlong : format.mantissaBitsWithoutImplicit ≤ mantissa.log2) :
      2 ^ format.mantissaBitsWithoutImplicit ≤ rounded := by
    rw [Nat.min_eq_right hlong] at hleast
    exact hleast.trans hup
  refine ⟨(Nat.two_pow_pos _).trans_le hleast', hmost', fun hlong => hfull (hkept hlong), ?_, ?_,
    ?_, weight_rounded_le hstep exponent⟩
  · omega
  · omega
  · by_cases hlength : 2 ^ format.mantissaBitsWithoutImplicit ≤ rounded
    · exact Or.inl (hfull hlength)
    · have hshort : mantissa.log2 < format.mantissaBitsWithoutImplicit :=
        Nat.not_le.1 fun hlong => hlength (hkept hlong)
      have hshort' := (Nat.log2_lt (Nat.ne_of_gt hroundedPos)).2 (Nat.not_le.1 hlength)
      rw [excess, excess]
      omega

/-- Rounding an exact value gives a rounded mantissa at its exponent and no other outcome. -/
theorem roundWithAccuracy_eq (sign : Sign) (hpos : 0 < mantissa)
    (hlow : format.minExponent ≤ exponent) :
    ∃ mantissa' exponent', ∃ hrounds : Rounds format mantissa exponent mantissa' exponent',
      roundWithAccuracy format sign mantissa exponent .exact =
        .finite sign mantissa' exponent' hrounds.pos := by
  rw [roundWithAccuracy, shiftToTargetExponent_eq hlow]
  dsimp only
  generalize hcut : ExtendedMantissa.ofMantissaAndAccuracy mantissa .exact >>>
    excess format mantissa = cut
  have hmantissa : cut.mantissa = mantissa >>> excess format mantissa := by
    rw [← hcut, mantissa_exact_shiftRight]
  obtain ⟨hup, hstep⟩ := roundedMantissa_bounds cut
  rw [hmantissa] at hup hstep
  have hrounds := rounds_of_bounds hpos hup hstep exponent
  rw [shiftToTargetExponent_eq (by omega)]
  dsimp only
  simp only [mantissa_exact_shiftRight]
  rw [dif_neg (Nat.ne_of_gt hrounds.pos)]
  exact ⟨_, _, hrounds, rfl⟩

/-- The unit of the last bit that is kept is at most as great a part of the value as one is of the
least mantissa of full length. -/
theorem unit_le (hpos : 0 < mantissa)
    (hlong : format.mantissaBitsWithoutImplicit ≤ mantissa.log2) (exponent : Int) :
    (2 : ℚ) ^ (exponent + excess format mantissa) ≤
      weight mantissa exponent / 2 ^ format.mantissaBitsWithoutImplicit := by
  have hleast : 2 ^ mantissa.log2 ≤ mantissa := Nat.log2_self_le (Nat.ne_of_gt hpos)
  rw [le_div_iff₀ (by positivity), ← zpow_natCast, ← zpow_add₀ two_ne_zero]
  have hsum : exponent + (excess format mantissa : Int) + format.mantissaBitsWithoutImplicit =
      mantissa.log2 + exponent := by
    rw [excess]
    omega
  rw [hsum, zpow_add₀ two_ne_zero, zpow_natCast, weight]
  gcongr
  exact_mod_cast hleast

namespace Rounds

variable {mantissa' : Nat} {exponent' : Int}

/-- What has been rounded fits the format, apart from a greatest exponent. -/
theorem fitsBelow (hrounds : Rounds format mantissa exponent mantissa' exponent')
    (hlow : format.minExponent ≤ exponent)
    (hform : format.mantissaBitsWithoutImplicit ≤ mantissa.log2 ∨
      exponent = format.minExponent) : FitsBelow format mantissa' exponent' where
  most := hrounds.most
  low := by
    have hge := hrounds.exponent_ge
    omega
  form := by
    obtain hlong | hleast := hform
    · exact Or.inl (hrounds.least hlong)
    · exact hrounds.short.imp_right fun hsame => hsame.trans hleast

/-- Rounding a mantissa that is long enough. -/
theorem weight_le_mul (hrounds : Rounds format mantissa exponent mantissa' exponent')
    (hpos : 0 < mantissa) (hlong : format.mantissaBitsWithoutImplicit ≤ mantissa.log2) :
    weight mantissa' exponent' ≤
      weight mantissa exponent * (1 + 1 / 2 ^ format.mantissaBitsWithoutImplicit) := by
  calc
    weight mantissa' exponent'
        ≤ weight mantissa exponent + 2 ^ (exponent + excess format mantissa) := hrounds.weight_le
    _ ≤ weight mantissa exponent +
          weight mantissa exponent / 2 ^ format.mantissaBitsWithoutImplicit := by
        gcongr
        exact unit_le hpos hlong exponent
    _ = weight mantissa exponent * (1 + 1 / 2 ^ format.mantissaBitsWithoutImplicit) := by ring

end Rounds

/-! ### Rounding to the nearest number -/

/-- The number of bits that a mantissa is too short for the format, as far as the exponent allows
more of them. -/
def shortage (format : Format) (mantissa : Nat) (exponent : Int) : Nat :=
  (exponent - format.targetExponent (totalExponent mantissa exponent)).toNat

theorem round_eq (format : Format) (sign : Sign) (mantissa : Nat) (exponent : Int) :
    UnpackedFloat.round format sign mantissa exponent =
      roundWithAccuracy format sign (mantissa <<< shortage format mantissa exponent)
        (exponent - shortage format mantissa exponent) .exact := rfl

/-- A mantissa is made as long as the format has it, or as its least exponent allows. -/
theorem shortage_bounds (hlow : format.minExponent ≤ exponent) (mantissa : Nat) :
    format.minExponent ≤ exponent - shortage format mantissa exponent ∧
      (format.mantissaBitsWithoutImplicit ≤ mantissa.log2 + shortage format mantissa exponent ∨
        exponent - shortage format mantissa exponent = format.minExponent) := by
  rw [shortage, Format.targetExponent, totalExponent, Format.mantissaBits]
  omega

theorem shiftLeft_pos (hpos : 0 < mantissa) (shift : Nat) : 0 < mantissa <<< shift := by
  rw [Nat.shiftLeft_eq]
  exact Nat.mul_pos hpos (Nat.two_pow_pos shift)

theorem round_fitsBelow (sign : Sign) (hpos : 0 < mantissa)
    (hlow : format.minExponent ≤ exponent) :
    ∃ mantissa' exponent', ∃ hpos' : 0 < mantissa',
      UnpackedFloat.round format sign mantissa exponent =
        .finite sign mantissa' exponent' hpos' ∧ FitsBelow format mantissa' exponent' := by
  obtain ⟨hlow', hform⟩ := shortage_bounds hlow mantissa
  rw [← log2_shiftLeft hpos] at hform
  obtain ⟨mantissa', exponent', hrounds, hround⟩ :=
    roundWithAccuracy_eq sign (shiftLeft_pos hpos (shortage format mantissa exponent)) hlow'
  exact ⟨mantissa', exponent', hrounds.pos, (round_eq format sign mantissa exponent).trans hround,
    hrounds.fitsBelow hlow' hform⟩

/-! ### Normal numbers -/

/-- A value within the normal numbers of the format, also after one step up. -/
structure InRange (format : Format) (mantissa : Nat) (exponent : Int) : Prop where
  least : format.minExponent + format.mantissaBitsWithoutImplicit ≤ mantissa.log2 + exponent
  most : mantissa.log2 + exponent + format.exponentBias + 2 < 2 ^ format.exponentBits

/-- A normal number with the value of another one, up to the rounding of its last bit. -/
structure Normalizes (format : Format) (mantissa : Nat) (exponent : Int) (mantissa' : Nat)
    (exponent' : Int) : Prop where
  normal : IsNormal format mantissa' exponent'
  exponent_ge : mantissa.log2 + exponent - format.mantissaBitsWithoutImplicit ≤ exponent'
  exponent_le : exponent' ≤ mantissa.log2 + exponent - format.mantissaBitsWithoutImplicit + 1
  weight_le : weight mantissa' exponent' ≤
    weight mantissa exponent * (1 + 1 / 2 ^ format.mantissaBitsWithoutImplicit)

theorem Normalizes.pos {mantissa' : Nat} {exponent' : Int}
    (hnormalizes : Normalizes format mantissa exponent mantissa' exponent') : 0 < mantissa' :=
  (Nat.two_pow_pos _).trans_le hnormalizes.normal.least

/-- A mantissa of at least the length of the format is rounded to a normal number. -/
theorem roundWithAccuracy_normal (sign : Sign) (hpos : 0 < mantissa)
    (hlong : format.mantissaBitsWithoutImplicit ≤ mantissa.log2)
    (hrange : InRange format mantissa exponent) (hlow : format.minExponent ≤ exponent) :
    ∃ mantissa' exponent', ∃ hnormalizes : Normalizes format mantissa exponent mantissa' exponent',
      roundWithAccuracy format sign mantissa exponent .exact =
        .finite sign mantissa' exponent' hnormalizes.pos := by
  obtain ⟨mantissa', exponent', hrounds, hround⟩ := roundWithAccuracy_eq sign hpos hlow
  have hge := hrounds.exponent_ge
  have hle := hrounds.exponent_le
  have hmost := hrange.most
  rw [excess] at hge hle
  have hnormal : IsNormal format mantissa' exponent' :=
    ⟨hrounds.least hlong, hrounds.most, by omega, by omega⟩
  refine ⟨mantissa', exponent', ⟨hnormal, by omega, by omega, ?_⟩, hround⟩
  exact hrounds.weight_le_mul hpos hlong

/-- A value in the range of normal numbers is rounded to a normal number close to it. -/
theorem round_normal (sign : Sign) (hpos : 0 < mantissa)
    (hrange : InRange format mantissa exponent) (hlow : format.minExponent ≤ exponent) :
    ∃ mantissa' exponent', ∃ hnormalizes : Normalizes format mantissa exponent mantissa' exponent',
      UnpackedFloat.round format sign mantissa exponent =
        .finite sign mantissa' exponent' hnormalizes.pos := by
  obtain ⟨hlow', hform⟩ := shortage_bounds hlow mantissa
  have hleast := hrange.least
  have hlog := log2_shiftLeft hpos (shortage format mantissa exponent)
  have hlong : format.mantissaBitsWithoutImplicit ≤
      (mantissa <<< shortage format mantissa exponent).log2 := by
    omega
  have hsum : ((mantissa <<< shortage format mantissa exponent).log2 : Int) +
      (exponent - shortage format mantissa exponent) = mantissa.log2 + exponent := by
    omega
  have hshifted : InRange format (mantissa <<< shortage format mantissa exponent)
      (exponent - shortage format mantissa exponent) :=
    ⟨hsum ▸ hrange.least, hsum ▸ hrange.most⟩
  obtain ⟨mantissa', exponent', ⟨hnormal, hge, hle, hweight⟩, hround⟩ :=
    roundWithAccuracy_normal sign (shiftLeft_pos hpos _) hlong hshifted hlow'
  rw [hsum] at hge hle
  rw [weight_shiftLeft] at hweight
  exact ⟨mantissa', exponent', ⟨hnormal, hge, hle, hweight⟩,
    (round_eq format sign mantissa exponent).trans hround⟩

end MotionScript.Parts
