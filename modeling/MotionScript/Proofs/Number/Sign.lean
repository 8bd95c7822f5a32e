import MotionScript.Proofs.Number.Canonical
import MotionScript.Number.Decimal
/-!
# Signs of numbers that are read

Putting the parts of a number together keeps their sign, whether or not the parts fit the format,
and reading a decimal rounds without a sign.  So no decimal is read as a negative number, not even
as the negative zero.
-/

namespace MotionScript.Single

open Float.Model (Format UnpackedFloat)
open Float.Model.UnpackedFloat

def hasNegativeSign : UnpackedFloat → Bool
  | .notANumber => false
  | .infinity sign | .zero sign | .finite sign _ _ _ => sign == .negative

theorem isNegative_eq (x : Float32) : isNegative x = hasNegativeSign x.toModel.unpack := by
  rw [isNegative]
  cases x.toModel.unpack <;> rfl

/-- Fields with an exponent that is not reserved are taken apart with their sign. -/
theorem hasNegativeSign_unpack_packComponents (sign : Sign) {exponent : BitVec 8}
    (hfinite : exponent ≠ -1#8) (mantissa : BitVec 23) :
    hasNegativeSign (unpack .binary32 (packComponents .binary32 sign exponent mantissa)) =
      (sign == .negative) := by
  rw [unpack]
  simp only [unpackExponent_packComponents, unpackMantissa_packComponents,
    unpackSign_packComponents, Sign.ofBitVec_toBitVec]
  rw [if_neg hfinite]
  split
  · split <;> rfl
  · rfl

/-- Putting parts with a mantissa together gives an infinity or fields with an exponent that is not
reserved. -/
theorem pack_finite (sign : Sign) {mantissa : Nat} (exponent : Int) (hpos : 0 < mantissa) :
    pack .binary32 (.finite sign mantissa exponent hpos) = packedInfinity .binary32 sign ∨
      ∃ (exponent' : BitVec 8) (mantissa' : BitVec 23), exponent' ≠ -1#8 ∧
        pack .binary32 (.finite sign mantissa exponent hpos) =
          packComponents .binary32 sign exponent' mantissa' := by
  rw [pack]
  dsimp only
  split
  · exact Or.inl rfl
  next hfits =>
    refine Or.inr ?_
    split
    · refine ⟨_, _, fun hones => ?_, rfl⟩
      have hvalue := congrArg BitVec.toNat hones
      change _ % 2 ^ 8 = 255 at hvalue
      change ¬ 2 ^ 8 ≤ _ at hfits
      omega
    · exact ⟨_, _, by decide, rfl⟩

/-- Packing keeps the sign. -/
theorem hasNegativeSign_unpack_pack (parts : UnpackedFloat) :
    hasNegativeSign (unpack .binary32 (pack .binary32 parts)) = hasNegativeSign parts := by
  cases parts with
  | notANumber => rfl
  | infinity sign => cases sign <;> rfl
  | zero sign => cases sign <;> rfl
  | finite sign mantissa exponent hpos =>
      obtain hpack | ⟨exponent', mantissa', hfinite, hpack⟩ := pack_finite sign exponent hpos
      · rw [hpack]
        cases sign <;> rfl
      · rw [hpack]
        exact hasNegativeSign_unpack_packComponents sign hfinite mantissa'

theorem isNegative_ofModel_pack (parts : UnpackedFloat) :
    isNegative (.ofModel (.pack parts)) = hasNegativeSign parts := by
  rw [isNegative_eq]
  exact hasNegativeSign_unpack_pack parts

theorem hasNegativeSign_roundWithAccuracy (sign : Sign) (mantissa : Nat) (exponent : Int)
    (accuracy : Accuracy) :
    hasNegativeSign (roundWithAccuracy .binary32 sign mantissa exponent accuracy) =
      (sign == .negative) := by
  rw [roundWithAccuracy]
  dsimp only
  split <;> rfl

/-- A decimal without a sign is read as a number without one. -/
theorem hasNegativeSign_ofScientific (significand : Nat) (exponent : Int) :
    hasNegativeSign (ofScientific .binary32 significand exponent) = false := by
  rw [ofScientific]
  split
  · rfl
  · split
    · rfl
    · split
      · rfl
      · split
        · exact hasNegativeSign_roundWithAccuracy .positive _ _ _
        · exact hasNegativeSign_roundWithAccuracy .positive _ _ _

/-- A decimal has no sign to be read. -/
theorem isNegative_toSingle (d : Decimal) : isNegative d.toSingle = false :=
  (isNegative_ofModel_pack _).trans (hasNegativeSign_ofScientific d.significand d.exponent)

end MotionScript.Single
