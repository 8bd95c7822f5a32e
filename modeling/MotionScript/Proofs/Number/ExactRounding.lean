import MotionScript.Proofs.Number.Rounding
/-!
# Values that a format has

Where a value is a number of the format, rounding finds it, however many zeros its mantissa was
given: only zeros are cut off.  So an integer that is no longer than the mantissas of the format,
scaled by a power of two, is rounded to itself with its mantissa made as long as the format has it,
and so is a product of such numbers whose mantissa is not longer.
-/

namespace MotionScript.Parts

open Float.Model (Format UnpackedFloat totalExponent)
open Float.Model.UnpackedFloat

variable {format : Format} {mantissa : Nat} {exponent : Int}

/-! ### Cutting off zeros -/

/-- Bits that were shifted in are shifted out again with nothing left to round. -/
theorem shiftRight_shiftLeft (mantissa shift : Nat) :
    (⟨mantissa <<< shift, false, false⟩ : ExtendedMantissa) >>> shift =
      ⟨mantissa, false, false⟩ := by
  change Nat.repeat ExtendedMantissa.shiftRightOne shift _ = _
  induction shift generalizing mantissa with
  | zero => rfl
  | succ shift ih =>
      have hshift : mantissa <<< (shift + 1) = (2 * mantissa) <<< shift := by
        rw [Nat.shiftLeft_succ_inside]
      rw [Nat.repeat, hshift, ih, ExtendedMantissa.shiftRightOne]
      simp

theorem totalExponent_shiftLeft (hpos : 0 < mantissa) (exponent : Int) (shift : Nat) :
    totalExponent (mantissa <<< shift) (exponent - shift) = totalExponent mantissa exponent := by
  rw [totalExponent, totalExponent, log2_shiftLeft hpos]
  omega

/-- A number that stands at the exponent where the format has it is what any longer form of it is
rounded to. -/
theorem roundWithAccuracy_shiftLeft (sign : Sign) (hpos : 0 < mantissa)
    (htarget : format.targetExponent (totalExponent mantissa exponent) = exponent) (shift : Nat) :
    roundWithAccuracy format sign (mantissa <<< shift) (exponent - shift) .exact =
      .finite sign mantissa exponent hpos := by
  have hfirst : shiftToTargetExponent format (mantissa <<< shift) (exponent - shift) .exact =
      (⟨mantissa, false, false⟩, exponent) := by
    rw [shiftToTargetExponent, totalExponent_shiftLeft hpos, htarget, shiftToExponent]
    have hamount : (exponent - (exponent - shift)).toNat = shift := by omega
    simp only [hamount, ExtendedMantissa.ofMantissaAndAccuracy, shiftRight_shiftLeft]
    rw [Int.sub_add_cancel]
  have hsecond : shiftToTargetExponent format mantissa exponent .exact =
      (⟨mantissa, false, false⟩, exponent) := by
    rw [shiftToTargetExponent, htarget, shiftToExponent, Int.sub_self]
    exact congrArg _ (Int.add_zero exponent)
  rw [roundWithAccuracy, hfirst]
  simp only [ExtendedMantissa.roundedMantissa, ExtendedMantissa.accuracy,
    Accuracy.roundToNearestEven, hsecond]
  rw [dif_neg (Nat.ne_of_gt hpos)]

/-! ### Short mantissas -/

/-- The number of bits that the mantissas of a format have beyond those of this one. -/
def room (format : Format) (mantissa : Nat) : Nat :=
  format.mantissaBitsWithoutImplicit - mantissa.log2

/-- The value of a mantissa at an exponent, where the mantissa is not longer than the format has it
and the value is within its normal numbers. -/
structure Fits (format : Format) (mantissa : Nat) (exponent : Int) : Prop where
  pos : 0 < mantissa
  short : mantissa < 2 ^ (format.mantissaBitsWithoutImplicit + 1)
  least : format.minExponent + format.mantissaBitsWithoutImplicit ≤ mantissa.log2 + exponent
  most : mantissa.log2 + exponent + format.exponentBias + 1 < 2 ^ format.exponentBits

namespace Fits

variable (hfits : Fits format mantissa exponent)
include hfits

theorem log2_add_room :
    mantissa.log2 + room format mantissa = format.mantissaBitsWithoutImplicit := by
  have hlog := (Nat.log2_lt (Nat.ne_of_gt hfits.pos)).2 hfits.short
  rw [room]
  omega

theorem shiftLeft_room_pos : 0 < mantissa <<< room format mantissa :=
  shiftLeft_pos hfits.pos _

/-- The value with its mantissa made as long as the format has it. -/
def parts : UnpackedFloat :=
  .finite .positive (mantissa <<< room format mantissa) (exponent - room format mantissa)
    hfits.shiftLeft_room_pos

theorem isNormal : IsNormal format (mantissa <<< room format mantissa)
    (exponent - room format mantissa) := by
  have hroom := hfits.log2_add_room
  have hlog := log2_shiftLeft hfits.pos (room format mantissa)
  have hne : mantissa <<< room format mantissa ≠ 0 := Nat.ne_of_gt hfits.shiftLeft_room_pos
  have hleast := hfits.least
  have hmost := hfits.most
  refine ⟨(Nat.le_log2 hne).1 (by omega), (Nat.log2_lt hne).1 (by omega), by omega, by omega⟩

theorem unpack_pack : unpack format (pack format hfits.parts) = hfits.parts :=
  hfits.isNormal.unpack_pack .positive hfits.shiftLeft_room_pos

/-- What fits the format is shifted by its room. -/
theorem targetExponent_eq :
    format.targetExponent (totalExponent mantissa exponent) = exponent - room format mantissa := by
  have hroom := hfits.log2_add_room
  have hleast := hfits.least
  rw [Format.targetExponent, totalExponent, Format.mantissaBits]
  omega

/-- However many zeros the mantissa was given, rounding cuts it to the length of the format. -/
theorem roundWithAccuracy_eq {shift : Nat} (hshift : room format mantissa ≤ shift) :
    roundWithAccuracy format .positive (mantissa <<< shift) (exponent - shift) .exact =
      hfits.parts := by
  obtain ⟨more, rfl⟩ := Nat.exists_eq_add_of_le hshift
  have hexponent : exponent - (room format mantissa + more : Nat) =
      exponent - room format mantissa - more := by
    omega
  rw [Nat.shiftLeft_add, hexponent]
  refine roundWithAccuracy_shiftLeft .positive hfits.shiftLeft_room_pos ?_ more
  rw [totalExponent_shiftLeft hfits.pos, hfits.targetExponent_eq]

/-- Rounding to the nearest number finds the value, also from a longer form of it. -/
theorem round_shiftLeft (shift : Nat) :
    UnpackedFloat.round format .positive (mantissa <<< shift) (exponent - shift) = hfits.parts := by
  have htarget := hfits.targetExponent_eq
  rw [← totalExponent_shiftLeft hfits.pos exponent shift] at htarget
  have hexponent (more : Nat) : exponent - shift - more = exponent - (shift + more : Nat) := by
    omega
  rw [Parts.round_eq, ← Nat.shiftLeft_add, hexponent]
  refine hfits.roundWithAccuracy_eq ?_
  rw [shortage, htarget]
  omega

end Fits

/-- An integer is read in single precision as its shifted digits are rounded. -/
theorem ofScientific_zero {n : Nat} (hpos : 0 < n) :
    ofScientific .binary32 n 0 =
      roundWithAccuracy .binary32 .positive (n <<< 24) (-24) .exact := by
  have hsmall : ¬ (0 : Int) < -((2 ^ 8 : Int) + n.log2) := by omega
  rw [ofScientific, dif_neg (Nat.ne_of_gt hpos), if_neg (by decide), if_neg hsmall,
    if_pos (by decide)]
  change roundWithAccuracy .binary32 .positive (n <<< 24 * 10 ^ (0 : Int).toNat) (-24 + 0)
    .exact = _
  rw [Int.toNat_zero, Nat.pow_zero, Nat.mul_one, Int.add_zero]

/-- An integer is converted to itself. -/
theorem ofNat_eq_parts (hfits : Fits format mantissa 0) :
    UnpackedFloat.ofNat format mantissa = hfits.parts := by
  rw [UnpackedFloat.ofNat, UnpackedFloat.ofInt, UnpackedFloat.normalize,
    Int.compare_eq_gt.2 (Int.natCast_pos.2 hfits.pos)]
  simpa using hfits.round_shiftLeft 0

/-- The product of two values is exact if it is not longer than the format has mantissas. -/
theorem mul_eq_parts {m₁ m₂ : Nat} {e₁ e₂ : Int} (hleft : Fits format m₁ e₁)
    (hright : Fits format m₂ e₂) (hmantissa : m₁ * m₂ = mantissa) (hexponent : e₁ + e₂ = exponent)
    (hfits : Fits format mantissa exponent) :
    UnpackedFloat.mul format hleft.parts hright.parts = hfits.parts := by
  subst hmantissa hexponent
  have hroom := hleft.log2_add_room
  have hroom' := hright.log2_add_room
  have hlog : m₁.log2 + m₂.log2 ≤ (m₁ * m₂).log2 := by
    rw [Nat.le_log2 (Nat.ne_of_gt hfits.pos), Nat.pow_add]
    exact Nat.mul_le_mul (Nat.log2_self_le (Nat.ne_of_gt hleft.pos))
      (Nat.log2_self_le (Nat.ne_of_gt hright.pos))
  have hlong : m₁ <<< room format m₁ * m₂ <<< room format m₂ =
      (m₁ * m₂) <<< (room format m₁ + room format m₂) := by
    simp only [Nat.shiftLeft_eq, Nat.pow_add]
    ring
  have hlow : e₁ - room format m₁ + (e₂ - room format m₂) =
      e₁ + e₂ - (room format m₁ + room format m₂ : Nat) := by
    omega
  have hshift : room format (m₁ * m₂) ≤ room format m₁ + room format m₂ := by
    rw [room]
    omega
  change roundWithAccuracy format .positive (m₁ <<< room format m₁ * m₂ <<< room format m₂)
    (e₁ - room format m₁ + (e₂ - room format m₂)) .exact = _
  rw [hlong, hlow, hfits.roundWithAccuracy_eq hshift]

end MotionScript.Parts
