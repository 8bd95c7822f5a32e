import MotionScript.Blend
import MotionScript.Proofs.Number.Order
import MotionScript.Proofs.Number.Rounding
/-!
# Differences of numbers

The difference of two numbers is not smaller than the least number of the format, and rounding what
is no smaller than that never gives zero.  So finite numbers that differ have a difference that is
not zero, and the time from one moment to a later one is positive.
-/

namespace MotionScript.Single

open Float.Model (Format UnpackedFloat)
open Float.Model.UnpackedFloat
open MotionScript.Parts (FitsBelow round_fitsBelow)

/-- What is put together with the positive sign from parts that fit the format is greater than
zero. -/
theorem level_pack_pos {mantissa : Nat} {exponent : Int} (hpos : 0 < mantissa)
    (hfits : FitsBelow .binary32 mantissa exponent) :
    0 < level (.ofModel (.pack (.finite .positive mantissa exponent hpos))) := by
  obtain ⟨hmost, hlow, hform⟩ := hfits
  by_cases hhigh : exponent ≤ 104
  · have hcanonical : Canonical (.finite .positive mantissa exponent hpos) :=
      ⟨hmost, hlow, hhigh, hform⟩
    rw [level, unpack_ofModel_pack hcanonical]
    exact place_positive hcanonical
  · have hinfinite : pack .binary32 (.finite .positive mantissa exponent hpos) =
        pack .binary32 (.infinity .positive) := by
      have hoverflow : 2 ^ Format.binary32.exponentBits ≤ (exponent + Format.binary32.exponentBias +
          Format.binary32.mantissaBitsWithoutImplicit).toNat + 1 := by
        change 2 ^ 8 ≤ (exponent + 127 + 23).toNat + 1
        omega
      exact if_pos hoverflow
    change 0 < place (unpack .binary32 (pack .binary32 (.finite .positive mantissa exponent hpos)))
    rw [hinfinite]
    decide

/-! ### Differences -/

/-- Over the same exponent the mantissa of the greater number is greater. -/
theorem shiftLeft_lt_shiftLeft {leftSign rightSign : Sign} {m₁ m₂ : Nat} {e₁ e₂ : Int}
    {hleft : 0 < m₁} {hright : 0 < m₂} (hcanonical : Canonical (.finite leftSign m₁ e₁ hleft))
    (hcanonical' : Canonical (.finite rightSign m₂ e₂ hright))
    (hlt : magnitude (.finite leftSign m₁ e₁ hleft) < magnitude (.finite rightSign m₂ e₂ hright)) :
    m₁ <<< (e₁ - min e₁ e₂).toNat < m₂ <<< (e₂ - min e₁ e₂).toNat := by
  obtain ⟨hmost, hlow, -, hform⟩ := hcanonical
  obtain ⟨hmost', hlow', -, hform'⟩ := hcanonical'
  simp only [magnitude] at hlt
  obtain hexponent | rfl | hexponent := Int.lt_trichotomy e₁ e₂
  · obtain ⟨shift, rfl⟩ : ∃ shift : Nat, e₂ = e₁ + (shift + 1 : Nat) :=
      ⟨(e₂ - e₁ - 1).toNat, by omega⟩
    have hzero : (e₁ - min e₁ (e₁ + (shift + 1 : Nat))).toNat = 0 := by omega
    have hshift : (e₁ + (shift + 1 : Nat) - min e₁ (e₁ + (shift + 1 : Nat))).toNat = shift + 1 := by
      omega
    rw [hzero, hshift, Nat.shiftLeft_zero, Nat.shiftLeft_eq]
    calc
      m₁ < 2 ^ 24 := hmost
      _ ≤ m₂ * 2 := by omega
      _ ≤ m₂ * 2 ^ (shift + 1) :=
        Nat.mul_le_mul_left m₂ (Nat.pow_le_pow_right Nat.two_pos (Nat.le_add_left 1 shift))
  · rw [Int.min_self, Int.sub_self, Int.toNat_zero, Nat.shiftLeft_zero, Nat.shiftLeft_zero]
    omega
  · omega

/-- Over the same exponent the greater number has the greater mantissa, with the signs. -/
theorem apply_lt_apply {leftSign rightSign : Sign} {m₁ m₂ : Nat} {e₁ e₂ : Int}
    {hleft : 0 < m₁} {hright : 0 < m₂} (hcanonical : Canonical (.finite leftSign m₁ e₁ hleft))
    (hcanonical' : Canonical (.finite rightSign m₂ e₂ hright))
    (hlt : place (.finite leftSign m₁ e₁ hleft) < place (.finite rightSign m₂ e₂ hright)) :
    leftSign.apply (m₁ <<< (e₁ - min e₁ e₂).toNat : Nat) <
      rightSign.apply (m₂ <<< (e₂ - min e₁ e₂).toNat : Nat) := by
  have hbounds := magnitude_finite hcanonical
  have hbounds' := magnitude_finite hcanonical'
  cases leftSign <;> cases rightSign <;> simp only [place, Sign.apply] at hlt ⊢
  case negative.negative =>
    have hshifted := shiftLeft_lt_shiftLeft hcanonical' hcanonical (by omega)
    rw [Int.min_comm] at hshifted
    omega
  case negative.positive =>
    have hpos : 0 < m₂ <<< (e₂ - min e₁ e₂).toNat := by
      rw [Nat.shiftLeft_eq]
      exact Nat.mul_pos hright (Nat.two_pow_pos _)
    exact Int.lt_of_le_of_lt (Int.neg_nonpos_of_nonneg (Int.natCast_nonneg _))
      (Int.natCast_pos.2 hpos)
  case positive.negative => omega
  case positive.positive =>
    have hshifted := shiftLeft_lt_shiftLeft hcanonical hcanonical' hlt
    omega

theorem level_normalize_pos {mantissa exponent : Int} (hpos : 0 < mantissa)
    (hlow : -149 ≤ exponent) (sign : Sign) :
    0 < level (.ofModel (.pack (UnpackedFloat.normalize .binary32 mantissa exponent sign))) := by
  have hleast : Format.binary32.minExponent ≤ exponent := hlow
  obtain ⟨mantissa', exponent', hpos', hround, hfits⟩ :=
    round_fitsBelow .positive (show 0 < mantissa.toNat by omega) hleast
  rw [UnpackedFloat.normalize, Int.compare_eq_gt.2 hpos]
  dsimp only
  rw [hround]
  exact level_pack_pos hpos' hfits

/-- The difference of two finite numbers in order is positive: rounding cannot make it vanish, since
numbers that differ do so by at least the least one. -/
theorem level_pack_sub_pos {left right : UnpackedFloat} (hcanonical : Canonical left)
    (hcanonical' : Canonical right) (hfinite : left.isFinite = true)
    (hfinite' : right.isFinite = true) (hlt : place left < place right) :
    0 < level (.ofModel (.pack (UnpackedFloat.sub .binary32 right left))) := by
  cases left with
  | notANumber => cases hfinite
  | infinity sign => cases hfinite
  | zero sign =>
      rw [place_zero] at hlt
      cases right with
      | notANumber => cases hfinite'
      | infinity sign' => cases hfinite'
      | zero sign' => cases sign' <;> cases hlt
      | finite sign' mantissa exponent hpos =>
          have ⟨hmost, hlow, _, hform⟩ := hcanonical'
          cases sign' with
          | negative => exact absurd hlt (not_lt_of_gt (place_negative hcanonical'))
          | positive => exact level_pack_pos hpos ⟨hmost, hlow, hform⟩
  | finite sign mantissa exponent hpos =>
      cases right with
      | notANumber => cases hfinite'
      | infinity sign' => cases hfinite'
      | zero sign' =>
          rw [place_zero] at hlt
          have ⟨hmost, hlow, _, hform⟩ := hcanonical
          cases sign with
          | negative => exact level_pack_pos hpos ⟨hmost, hlow, hform⟩
          | positive => exact absurd hlt (not_lt_of_gt (place_positive hcanonical))
      | finite sign' mantissa' exponent' hpos' =>
          have hmantissa := apply_lt_apply hcanonical hcanonical' hlt
          obtain ⟨-, hlow, -, -⟩ := hcanonical
          obtain ⟨-, hlow', -, -⟩ := hcanonical'
          rw [Int.min_comm] at hmantissa
          exact level_normalize_pos (Int.sub_pos_of_lt hmantissa) (by omega) .positive

theorem level_sub_pos {x y : Float32} (hx : x.isFinite = true) (hy : y.isFinite = true)
    (hlt : x < y) : 0 < level (y - x) :=
  level_pack_sub_pos (canonical_parts x) (canonical_parts y) hx hy
    ((lt_iff (isNaN_of_isFinite hx) (isNaN_of_isFinite hy)).1 hlt)

/-- What is left of a number without a smaller one is greater than zero. -/
theorem sub_pos {x y : Float32} (hx : x.isFinite = true) (hy : y.isFinite = true) (hlt : x < y) :
    0 < y - x := by
  have hlevel := level_sub_pos hx hy hlt
  exact (lt_iff (by decide) (isNaN_of_level_pos hlevel)).2 hlevel

/-- Over a positive span progress is a quotient. -/
theorem progress_of_lt {start stop : Float32} (hstart : start.isFinite = true)
    (hstop : stop.isFinite = true) (hlt : start < stop) (x : Float32) :
    progress start stop x = (x - start) / (stop - start) := by
  have hlevel := level_sub_pos hstart hstop hlt
  have hspan : (stop - start == ((0 : Nat) : Float32)) = false := by
    refine Bool.eq_false_iff.2 fun hzero => ?_
    have hequal := (beq_iff (isNaN_of_level_pos hlevel) (by decide)).1 hzero
    rw [hequal] at hlevel
    exact absurd hlevel (by decide)
  rw [progress, hspan, if_neg Bool.false_ne_true]

end MotionScript.Single
