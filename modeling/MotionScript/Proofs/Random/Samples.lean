import MotionScript.Proofs.MathFunction.Dice
import MotionScript.Proofs.Number.ExactRounding
import MotionScript.Proofs.Random.Period
/-!
# Samples

A sample is made of the upper 24 bits of an output.  As many bits are the length of a mantissa, so
neither the conversion of the bits nor the division by `2 ^ 24` rounds anything, and the sample is
exactly the fraction of the unit interval that the bits say.
-/

namespace MotionScript

open Float.Model (Format UnpackedFloat)
open Float.Model.UnpackedFloat
open MotionScript.Parts

namespace Single

/-- Integers that a mantissa has the length for, and their fractions down to the smallest normal
numbers. -/
theorem fits {n : Nat} {exponent : Int} (hpos : 0 < n) (hshort : n < 2 ^ 24)
    (hlow : -126 ≤ exponent) (hhigh : exponent ≤ 103) : Fits .binary32 n exponent := by
  have hlog := (Nat.log2_lt (Nat.ne_of_gt hpos)).2 hshort
  refine ⟨hpos, hshort, ?_, ?_⟩
  · change (-149 : Int) + 23 ≤ _
    omega
  · change _ + ((127 : Nat) : Int) + 1 < 2 ^ 8
    omega

theorem fits_one {exponent : Int} (hlow : -126 ≤ exponent) (hhigh : exponent ≤ 103) :
    Fits .binary32 1 exponent :=
  fits Nat.one_pos (by decide) hlow hhigh

theorem unpack_mul {x y : Float32} {m₁ m₂ n : Nat} {e₁ e₂ exponent : Int}
    {hx : Fits .binary32 m₁ e₁} {hy : Fits .binary32 m₂ e₂} (hleft : x.toModel.unpack = hx.parts)
    (hright : y.toModel.unpack = hy.parts) (hmantissa : m₁ * m₂ = n)
    (hexponent : e₁ + e₂ = exponent) (hfits : Fits .binary32 n exponent) :
    (x * y).toModel.unpack = hfits.parts := by
  change unpack .binary32 (pack .binary32
    (UnpackedFloat.mul .binary32 x.toModel.unpack y.toModel.unpack)) = _
  rw [hleft, hright, mul_eq_parts hx hy hmantissa hexponent hfits, hfits.unpack_pack]

/-- An integer that a mantissa has the length for is converted to itself. -/
theorem unpack_toFloat32 {n : Nat} (hfits : Fits .binary32 n 0) :
    n.toFloat32.toModel.unpack = hfits.parts := by
  change (Float32.ofScientific n false 0).toModel.unpack = _
  -- A short integer is converted as a word and multiplied by one, a longer one is rounded.
  by_cases hshort : n < 2 ^ 23
  · have hword : n.toUInt64.toNat = n := UInt64.toNat_ofNat_of_lt' (hshort.trans (by decide))
    have hinteger : n.toUInt64.toFloat32.toModel.unpack = hfits.parts := by
      change unpack .binary32 (pack .binary32 (UnpackedFloat.ofNat .binary32 n.toUInt64.toNat)) = _
      rw [hword, ofNat_eq_parts hfits, hfits.unpack_pack]
    have hone : (Float32.ofBits 1065353216).toModel.unpack =
        (fits_one (by decide) (by decide) : Fits .binary32 1 0).parts := rfl
    rw [Float32.ofScientific, dif_pos ⟨hshort, by decide⟩]
    exact unpack_mul hinteger hone (Nat.mul_one n) rfl hfits
  · rw [Float32.ofScientific, dif_neg fun hsmall => hshort hsmall.1]
    change unpack .binary32 (pack .binary32 (ofScientific .binary32 n 0)) = _
    have hroom : room .binary32 n ≤ 24 := (Nat.sub_le _ _).trans (by decide)
    have hround : roundWithAccuracy .binary32 .positive (n <<< 24) (-24) .exact = hfits.parts :=
      hfits.roundWithAccuracy_eq hroom
    rw [ofScientific_zero hfits.pos, hround, hfits.unpack_pack]

theorem toRat_of_unpack {x : Float32} {n : Nat} {exponent : Int} {hfits : Fits .binary32 n exponent}
    (hparts : x.toModel.unpack = hfits.parts) : toRat x = weight n exponent := by
  rw [toRat, hparts]
  exact weight_shiftLeft n _ exponent

end Single

namespace Random

/-! ### Fractions of the unit interval -/

theorem weight_unit (n : Nat) : weight n (-24) = n / 2 ^ 24 := by
  rw [weight, zpow_neg, ← div_eq_mul_inv]
  rfl

/-- The number that the bits of a sample are divided by is exactly what it is meant to be. -/
theorem unpack_unit : (1 / (1 <<< 24 : Nat).toFloat32 : Float32).toModel.unpack =
    (Single.fits_one (by decide) (by decide) : Fits .binary32 1 (-24)).parts := by
  rfl

theorem unpack_unitFraction {k : Nat} (hfits : Fits .binary32 k (-24)) :
    (unitFraction k).toModel.unpack = hfits.parts :=
  Single.unpack_mul (Single.unpack_toFloat32 (Single.fits hfits.pos hfits.short (by decide)
    (by decide))) unpack_unit (Nat.mul_one k) rfl hfits

/-- What is known of a sample that is made of certain bits. -/
structure IsFraction (sample : Float32) (k : Nat) : Prop where
  isFinite : sample.isFinite = true
  toRat_eq : Single.toRat sample = k / 2 ^ 24
  nonneg : 0 ≤ sample
  lt_one : sample < 1

/-- Every fraction is exact, and it is in the unit interval without its upper end. -/
theorem isFraction_unitFraction {k : Nat} (hk : k < 2 ^ 24) : IsFraction (unitFraction k) k := by
  obtain rfl | hpos := Nat.eq_zero_or_pos k
  · exact ⟨by decide, by rw [Nat.cast_zero, zero_div]; rfl, by decide, by decide⟩
  · have hfits := Single.fits hpos hk (show (-126 : Int) ≤ -24 by decide) (by decide)
    have hparts := unpack_unitFraction hfits
    have hcanonical := Single.canonical_parts (unitFraction k)
    have hnumber : (unitFraction k).isNaN = false := by
      change (unitFraction k).toModel.unpack.isNaN = false
      rw [hparts]
      rfl
    have hlevel : 0 < Single.level (unitFraction k) ∧
        Single.level (unitFraction k) < 127 * 2 ^ 23 := by
      have hmost := hfits.isNormal.most
      rw [Single.level, hparts] at *
      refine ⟨Single.place_positive hcanonical, ?_⟩
      simp only [Fits.parts, Single.place, Sign.apply, Single.magnitude]
      change _ < 2 ^ (23 + 1) at hmost
      omega
    refine ⟨?_, ?_, (Single.le_iff (by decide) hnumber).2 hlevel.1.le,
      (Single.lt_iff hnumber (by decide)).2 hlevel.2⟩
    · change (unitFraction k).toModel.unpack.isFinite = true
      rw [hparts]
      rfl
    · rw [Single.toRat_of_unpack hparts, weight_unit]

/-- Generators that start from different seeds have different first outputs.  From every seed the
first `2 ^ 64` outputs are all the words, each of them once, and then they begin again.  At every
draw a sample moves the generator on as an output does, and it is exactly `k / 2 ^ 24` with the
upper 24 bits `k` of that output, so it is in the unit interval without its upper end. -/
theorem outputs_lose_nothing :
    (Function.Injective fun seed : UInt64 => (Random.mk seed).next.1) ∧
      (∀ seed : UInt64,
        Set.BijOn (Random.mk seed).output (Set.Iio (2 ^ 64)) Set.univ ∧
          ∀ draws, (Random.mk seed).output (draws + 2 ^ 64) = (Random.mk seed).output draws) ∧
      ∀ (seed : UInt64) (draws : Nat),
        let random := (Random.mk seed).after draws
        let k := (random.next.1 >>> 40).toNat
        k < 2 ^ 24 ∧ random.nextUnit.2 = random.next.2 ∧ IsFraction random.nextUnit.1 k := by
  refine ⟨fun seed seed' heq => ?_, fun seed => ⟨?_, fun draws => ?_⟩, fun seed draws => ?_⟩
  · exact UInt64.add_left_inj step |>.1 (scramble_injective heq)
  · exact ⟨fun _ _ => Set.mem_univ _, injOn_output _, fun word _ => exists_output_eq _ word⟩
  · rw [output_eq_output_iff, Nat.add_mod_right]
  · intro random k
    have hk : k < 2 ^ 24 := by
      have hword := random.next.1.toNat_lt
      have hupper : k = random.next.1.toNat / 2 ^ 40 := by
        rw [← Nat.shiftRight_eq_div_pow]
        exact UInt64.toNat_shiftRight _ _
      omega
    exact ⟨hk, rfl, isFraction_unitFraction hk⟩

end Random

end MotionScript
