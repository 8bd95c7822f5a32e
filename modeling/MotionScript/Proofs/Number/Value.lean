import MotionScript.Proofs.Number.Bounds
import MotionScript.Proofs.Number.Order
/-!
# Values of numbers

A finite number is a rational number.  How large it is, is told by the least power of two that it
does not exceed; the bit pattern without its sign tells it as well.
-/

namespace MotionScript.Single

open Float.Model (Format UnpackedFloat)
open Float.Model.UnpackedFloat
open MotionScript.Parts

def toRat (x : Float32) : ℚ :=
  match x.toModel.unpack with
  | .finite .positive mantissa exponent _ => weight mantissa exponent
  | .finite .negative mantissa exponent _ => -weight mantissa exponent
  | _ => 0

/-- The least power of two that a finite number does not exceed, apart from its sign. -/
def bits (x : Float32) : Nat :=
  Nat.clog 2 ⌈|toRat x|⌉₊

/-- A finite number that does not exceed a power of two, apart from its sign. -/
structure Within (limit : Nat) (x : Float32) : Prop where
  isFinite : x.isFinite = true
  abs_le : |toRat x| ≤ 2 ^ limit

variable {x : Float32} {limit : Nat}

theorem bits_le_iff : bits x ≤ limit ↔ |toRat x| ≤ 2 ^ limit := by
  rw [bits, Nat.clog_le_iff_le_pow Nat.one_lt_two, Nat.ceil_le, Nat.cast_pow, Nat.cast_ofNat]

theorem within_iff : Within limit x ↔ x.isFinite = true ∧ bits x ≤ limit := by
  rw [bits_le_iff]
  exact ⟨fun ⟨hfinite, habs⟩ => ⟨hfinite, habs⟩, fun ⟨hfinite, habs⟩ => ⟨hfinite, habs⟩⟩

theorem Within.mono {greater : Nat} (hwithin : Within limit x) (hle : limit ≤ greater) :
    Within greater x :=
  ⟨hwithin.isFinite, hwithin.abs_le.trans (pow_le_pow_right₀ one_le_two hle)⟩

/-! ### Parts -/

variable {sign : Sign} {mantissa : Nat} {exponent : Int} {hpos : 0 < mantissa}

/-- The magnitude of a finite number is the value of its mantissa at its exponent. -/
theorem abs_toRat_of_unpack (hparts : x.toModel.unpack = .finite sign mantissa exponent hpos) :
    |toRat x| = weight mantissa exponent := by
  have hweight := weight_pos hpos exponent
  rw [toRat, hparts]
  cases sign with
  | positive => exact abs_of_pos hweight
  | negative => rw [abs_neg, abs_of_pos hweight]

theorem within_of_unpack_zero (hparts : x.toModel.unpack = .zero sign) : Within limit x where
  isFinite := by
    change x.toModel.unpack.isFinite = true
    rw [hparts]
    rfl
  abs_le := by
    rw [toRat, hparts]
    simp

/-- A finite number is within a power of two if the value of its parts is. -/
theorem within_of_unpack (hparts : x.toModel.unpack = .finite sign mantissa exponent hpos) :
    Within limit x ↔ weight mantissa exponent ≤ 2 ^ limit := by
  rw [← abs_toRat_of_unpack hparts]
  refine ⟨Within.abs_le, fun habs => ⟨?_, habs⟩⟩
  change x.toModel.unpack.isFinite = true
  rw [hparts]
  rfl

theorem toRat_neg (x : Float32) : toRat (-x) = -toRat x := by
  rw [toRat, toRat, unpack_neg]
  cases x.toModel.unpack with
  | finite sign mantissa exponent hpos =>
      cases sign with
      | positive => rfl
      | negative => exact (Rat.neg_neg (weight mantissa exponent)).symm
  | _ => exact neg_zero.symm

theorem Within.neg (hwithin : Within limit x) : Within limit (-x) where
  isFinite := (isFinite_neg x).trans hwithin.isFinite
  abs_le := by
    rw [toRat_neg, abs_neg]
    exact hwithin.abs_le

/-! ### Bit patterns -/

/-- Parts that come before a power of two have a value up to that power. -/
theorem weight_le_of_magnitude (hcanonical : Canonical (.finite sign mantissa exponent hpos))
    (hmagnitude : magnitude (.finite sign mantissa exponent hpos) ≤ (limit + 127) * 2 ^ 23) :
    weight mantissa exponent ≤ 2 ^ limit := by
  obtain ⟨hmost, hlow, -, hform⟩ := hcanonical
  rw [magnitude] at hmagnitude
  have hexponent : exponent ≤ limit - 23 := by omega
  rw [weight_le_iff (by omega)]
  obtain hless | hequal := hexponent.lt_or_eq
  · exact hmost.le.trans (Nat.pow_le_pow_right Nat.two_pos (by omega))
  · have hplaces : (limit - exponent).toNat = 23 := by omega
    rw [hplaces]
    omega

/-- A number whose place is at most that of a power of two is within that power. -/
theorem within_of_level (hnumber : x.isNaN = false) (hlimit : limit ≤ 127)
    (hlevel : |level x| ≤ (limit + 127) * 2 ^ 23) : Within limit x := by
  have hcanonical := canonical_parts x
  change x.toModel.unpack.isNaN = false at hnumber
  rw [abs_le, level] at hlevel
  cases hparts : x.toModel.unpack with
  | notANumber => rw [hparts] at hnumber; cases hnumber
  | infinity sign =>
      rw [hparts] at hlevel
      cases sign <;> simp only [place, Sign.apply, magnitude] at hlevel <;> omega
  | zero sign => exact within_of_unpack_zero hparts
  | finite sign mantissa exponent hpos =>
      rw [hparts] at hcanonical hlevel
      have hmagnitude := magnitude_finite hcanonical
      refine (within_of_unpack hparts).2 (weight_le_of_magnitude hcanonical ?_)
      cases sign <;> simp only [place, Sign.apply] at hlevel <;> omega

end MotionScript.Single
