import Mathlib
/-!
# Normal numbers of a format

A number is normal if its mantissa has the full length of the format and its exponent has a field of
its own.  Such parts are what is taken apart again after they were put together, in every format.
-/

namespace MotionScript.Parts

open Float.Model (Format UnpackedFloat)
open Float.Model.UnpackedFloat

/-- A mantissa of full length with an exponent that the format has. -/
structure IsNormal (format : Format) (mantissa : Nat) (exponent : Int) : Prop where
  least : 2 ^ format.mantissaBitsWithoutImplicit ≤ mantissa
  most : mantissa < 2 ^ (format.mantissaBitsWithoutImplicit + 1)
  low : format.minExponent ≤ exponent
  high : exponent + format.exponentBias + format.mantissaBitsWithoutImplicit + 1 <
    2 ^ format.exponentBits

variable {format : Format} {mantissa : Nat} {exponent : Int}

/-- The exponent as it stands in its field. -/
def biased (format : Format) (exponent : Int) : Nat :=
  (exponent + format.exponentBias + format.mantissaBitsWithoutImplicit).toNat

/-- The least exponent has the field that comes after that of the subnormal numbers. -/
theorem minExponent_add_bias (format : Format) :
    format.minExponent + format.exponentBias + format.mantissaBitsWithoutImplicit = 1 := by
  have hbias : ((2 ^ (format.exponentBits - 1) - 1 : Nat) : Int) =
      2 ^ (format.exponentBits - 1) - 1 := by
    rw [Nat.cast_sub Nat.one_le_two_pow]
    push_cast
    rfl
  rw [Format.minExponent, Format.exponentBias, hbias, Format.mantissaBits]
  push_cast
  ring

theorem log2_eq_of_bounds {width : Nat} (hleast : 2 ^ width ≤ mantissa)
    (hmost : mantissa < 2 ^ (width + 1)) : mantissa.log2 = width := by
  have hne : mantissa ≠ 0 := Nat.ne_of_gt ((Nat.two_pow_pos width).trans_le hleast)
  have hlower := (Nat.le_log2 hne).2 hleast
  have hupper := (Nat.log2_lt hne).2 hmost
  omega

theorem log2_shiftLeft {mantissa : Nat} (hpos : 0 < mantissa) (shift : Nat) :
    (mantissa <<< shift).log2 = mantissa.log2 + shift := by
  induction shift with
  | zero => rfl
  | succ shift ih =>
      have hne : mantissa <<< shift ≠ 0 := by
        rw [Nat.shiftLeft_eq]
        exact Nat.ne_of_gt (Nat.mul_pos hpos (Nat.two_pow_pos shift))
      rw [Nat.shiftLeft_succ, Nat.log2_two_mul hne, ih]
      rfl

theorem log2_mul_le {left right : Nat} (hleft : 0 < left) (hright : 0 < right) :
    (left * right).log2 ≤ left.log2 + right.log2 + 1 := by
  have hne : left * right ≠ 0 := Nat.ne_of_gt (Nat.mul_pos hleft hright)
  have hproduct : left * right < 2 ^ (left.log2 + 1) * 2 ^ (right.log2 + 1) :=
    Nat.mul_lt_mul'' Nat.lt_log2_self Nat.lt_log2_self
  rw [← Nat.pow_add] at hproduct
  have hlog := (Nat.log2_lt hne).2 hproduct
  omega

theorem toNat_one_append {width : Nat} (fraction : BitVec width) :
    (1#1 ++ fraction).toNat = 2 ^ width + fraction.toNat := by
  rw [BitVec.toNat_append, ← Nat.shiftLeft_add_eq_or_of_lt fraction.isLt]
  rw [Nat.shiftLeft_eq]
  simp

namespace IsNormal

variable (hnormal : IsNormal format mantissa exponent)
include hnormal

/-- The exponent field of a normal number is neither the least nor the greatest one. -/
theorem biased_bounds :
    0 < biased format exponent ∧ biased format exponent + 1 < 2 ^ format.exponentBits := by
  have hfield := minExponent_add_bias format
  have hlow := hnormal.low
  have hhigh : exponent + format.exponentBias + format.mantissaBitsWithoutImplicit + 1 <
      ((2 ^ format.exponentBits : Nat) : Int) := by
    push_cast
    exact hnormal.high
  rw [biased]
  omega

/-- A normal number is put together from its sign, its exponent and its mantissa without the first
bit. -/
theorem pack_eq (sign : Sign) (hpos : 0 < mantissa) :
    pack format (.finite sign mantissa exponent hpos) =
      packComponents format sign (BitVec.ofNat _ (biased format exponent))
        (BitVec.ofNat _ mantissa) := by
  have hlog : mantissa.log2 + 1 = format.mantissaBits := by
    rw [log2_eq_of_bounds hnormal.least hnormal.most, Format.mantissaBits, Nat.add_comm]
  rw [pack]
  exact (if_neg (Nat.not_le.2 hnormal.biased_bounds.2)).trans (if_pos hlog)

/-- The fields of a normal number are unpacked to its parts. -/
theorem unpack_packComponents (sign : Sign) (hpos : 0 < mantissa) :
    unpack format (packComponents format sign (BitVec.ofNat _ (biased format exponent))
        (BitVec.ofNat _ mantissa)) =
      .finite sign mantissa exponent hpos := by
  obtain ⟨hbiased, hfield⟩ := hnormal.biased_bounds
  have hexponent : (BitVec.ofNat format.exponentBits (biased format exponent)).toNat =
      biased format exponent := by
    rw [BitVec.toNat_ofNat, Nat.mod_eq_of_lt (by omega)]
  have hfinite : BitVec.ofNat format.exponentBits (biased format exponent) ≠ -1#_ := by
    intro heq
    have hones := congrArg BitVec.toNat heq
    rw [hexponent, BitVec.neg_one_eq_allOnes, BitVec.toNat_allOnes] at hones
    omega
  have hleast : BitVec.ofNat format.exponentBits (biased format exponent) ≠ 0#_ := by
    intro heq
    have hzero := congrArg BitVec.toNat heq
    rw [hexponent, BitVec.toNat_zero] at hzero
    omega
  have hmantissa : (1#1 ++ BitVec.ofNat format.mantissaBitsWithoutImplicit mantissa).toNat =
      mantissa := by
    have hmost := hnormal.most
    rw [Nat.pow_succ] at hmost
    rw [toNat_one_append, BitVec.toNat_ofNat, Nat.mod_eq_sub_mod hnormal.least,
      Nat.mod_eq_of_lt (by omega), Nat.add_sub_cancel' hnormal.least]
  have hvalue : ((biased format exponent : Nat) : Int) -
      (format.exponentBias + format.mantissaBitsWithoutImplicit) = exponent := by
    rw [biased] at hbiased ⊢
    omega
  rw [unpack]
  simp only [unpackExponent_packComponents, unpackMantissa_packComponents,
    unpackSign_packComponents, Sign.ofBitVec_toBitVec]
  rw [if_neg hfinite, if_neg hleast]
  simp only [hmantissa, hexponent, hvalue]

/-- What is put together is taken apart again. -/
theorem unpack_pack (sign : Sign) (hpos : 0 < mantissa) :
    unpack format (pack format (.finite sign mantissa exponent hpos)) =
      .finite sign mantissa exponent hpos := by
  rw [hnormal.pack_eq, hnormal.unpack_packComponents]

end IsNormal

end MotionScript.Parts
