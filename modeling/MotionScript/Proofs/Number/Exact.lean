import MotionScript.Number.Decimal
import MotionScript.Proofs.Number.Canonical
import MotionScript.Proofs.Number.ExactRounding
/-!
# Decimals that are read exactly

A decimal whose value is a number of the format is read as that number: its digits are divided
without a remainder, and the bits that rounding drops are all zero.  The decimal that a number is
written with is read back as the number, as the search has tested it or as it is the exact value.
-/

namespace MotionScript.Single

open Float.Model (Format UnpackedFloat totalExponent)
open Float.Model.UnpackedFloat
open MotionScript.Parts (log2_eq_of_bounds log2_shiftLeft log2_mul_le roundWithAccuracy_shiftLeft)

/-! ### Rounding drops only zeros -/

/-- Parts that fit the format have the exponent that rounding aims at. -/
theorem targetExponent_of_canonical {sign : Sign} {mantissa : Nat} {exponent : Int}
    {hpos : 0 < mantissa} (hcanonical : Canonical (.finite sign mantissa exponent hpos)) :
    Format.binary32.targetExponent (totalExponent mantissa exponent) = exponent := by
  obtain ⟨hmost, hlow, hhigh, hform⟩ := hcanonical
  change max (mantissa.log2 + 1 + exponent - 24) (-149) = exponent
  by_cases hleast : 2 ^ 23 ≤ mantissa
  · have hlog := log2_eq_of_bounds hleast hmost
    omega
  · have hlog := log2_lt hpos (Nat.not_le.1 hleast)
    omega

theorem roundWithAccuracy_exact {sign : Sign} {mantissa : Nat} {exponent : Int}
    {hpos : 0 < mantissa} (hcanonical : Canonical (.finite sign mantissa exponent hpos))
    (shift : Nat) :
    roundWithAccuracy .binary32 sign (mantissa <<< shift) (exponent - shift) .exact =
      .finite sign mantissa exponent hpos :=
  roundWithAccuracy_shiftLeft sign hpos (targetExponent_of_canonical hcanonical) shift

/-! ### The exact decimal of a number -/

/-- An integer is read as the number that it is. -/
theorem ofScientific_shiftLeft {mantissa exponent : Nat} {hpos : 0 < mantissa}
    (hcanonical : Canonical (.finite .positive mantissa exponent hpos)) :
    ofScientific .binary32 (mantissa <<< exponent) 0 =
      .finite .positive mantissa exponent hpos := by
  have hshift : (-24 : Int) = exponent - (exponent + 24 : Nat) := by omega
  rw [Parts.ofScientific_zero (Parts.shiftLeft_pos hpos exponent), ← Nat.shiftLeft_add, hshift]
  exact roundWithAccuracy_exact hcanonical (exponent + 24)

/-- Digits that have been shifted to the left by as many places as the fraction has are a multiple
of the power of ten. -/
theorem mul_pow_shiftLeft (mantissa places excess : Nat) :
    (mantissa * 5 ^ places) <<< (places + excess) = mantissa <<< excess * 10 ^ places := by
  have hten : 10 ^ places = 5 ^ places * 2 ^ places := by
    rw [← Nat.mul_pow]
  calc
    (mantissa * 5 ^ places) <<< (places + excess)
        = mantissa * 5 ^ places * (2 ^ places * 2 ^ excess) := by
          rw [Nat.shiftLeft_eq, Nat.pow_add]
    _ = mantissa * 2 ^ excess * (5 ^ places * 2 ^ places) := by
          simp only [Nat.mul_assoc, Nat.mul_comm, Nat.mul_left_comm]
    _ = mantissa <<< excess * 10 ^ places := by rw [hten, Nat.shiftLeft_eq]

/-- Division shifts the digits at least as far as the fraction has places. -/
theorem targetExponent_quotient_le {mantissa places : Nat} {hpos : 0 < mantissa}
    (hcanonical : Canonical (.finite .positive mantissa (-places) hpos)) :
    Format.binary32.targetExponent
        (totalExponent (mantissa * 5 ^ places) 0 - totalExponent (10 ^ places) 0) ≤ -places := by
  have htarget := targetExponent_of_canonical hcanonical
  have hdigits : 0 < mantissa * 5 ^ places := Nat.mul_pos hpos (Nat.pow_pos (by decide))
  have hten : 0 < 10 ^ places := Nat.pow_pos (by decide)
  have hshift := log2_shiftLeft hdigits (places + 0)
  have hproduct := log2_mul_le hpos hten
  rw [mul_pow_shiftLeft, Nat.shiftLeft_zero] at hshift
  simp only [Format.targetExponent, totalExponent] at htarget ⊢
  omega

/-- A fraction of a power of two is read as the number that it is. -/
theorem ofScientific_mul_pow {mantissa places : Nat} {hpos : 0 < mantissa}
    (hcanonical : Canonical (.finite .positive mantissa (-places) hpos)) (hplaces : 0 < places) :
    ofScientific .binary32 (mantissa * 5 ^ places) (-places) =
      .finite .positive mantissa (-places) hpos := by
  have hdigits : 0 < mantissa * 5 ^ places := Nat.mul_pos hpos (Nat.pow_pos (by decide))
  have hten : 0 < 10 ^ places := Nat.pow_pos (by decide)
  have hlow : (-149 : Int) ≤ -places := hcanonical.2.1
  have hlarge : ¬ (-places : Int) > 2 ^ 8 := by omega
  have hsmall : ¬ (-places : Int) < -((2 ^ 8 : Int) + (mantissa * 5 ^ places).log2) := by omega
  have hfraction : ¬ (0 : Int) ≤ -places := by omega
  have hpower : (-(-places : Int)).toNat = places := by omega
  have hquotient := targetExponent_quotient_le hcanonical
  -- The exponent of the quotient, which lies below that of the number.
  generalize htarget : Format.binary32.targetExponent
    (totalExponent (mantissa * 5 ^ places) 0 - totalExponent (10 ^ places) 0) = target at hquotient
  obtain ⟨excess, rfl⟩ : ∃ excess : Nat, target = -(places + excess : Nat) :=
    ⟨(-places - target).toNat, by omega⟩
  have hdivision : divCore .binary32 (mantissa * 5 ^ places) 0 (10 ^ places) 0 =
      (mantissa <<< excess, -(places : Int) - excess, .exact) := by
    have hexponent : min ((0 : Int) - 0) (-(places + excess : Nat)) = -places - excess := by omega
    have hamount : ((0 : Int) - 0 - (-places - excess)).toNat = places + excess := by omega
    rw [divCore]
    simp only [htarget, hexponent, hamount, mul_pow_shiftLeft]
    rw [Nat.mul_div_cancel _ hten, Nat.mul_mod_left]
    rfl
  rw [ofScientific, dif_neg (Nat.ne_of_gt hdigits), if_neg hlarge, if_neg hsmall, if_neg hfraction]
  simp only [hpower]
  rw [div, hdivision]
  exact roundWithAccuracy_exact hcanonical excess

/-- The exact decimal of a number is read back as the number. -/
theorem toSingle_exact {x : Float32} {mantissa : Nat} {exponent : Int} {hpos : 0 < mantissa}
    (hparts : x.toModel.unpack = .finite .positive mantissa exponent hpos) :
    (Decimal.exact mantissa exponent).toSingle = x := by
  have hcanonical := canonical_parts x
  rw [hparts] at hcanonical
  have hread : ofScientific .binary32 (Decimal.exact mantissa exponent).significand
      (Decimal.exact mantissa exponent).exponent = .finite .positive mantissa exponent hpos := by
    rw [Decimal.exact]
    split
    next hinteger =>
      obtain ⟨places, rfl⟩ := Int.eq_ofNat_of_zero_le hinteger
      exact ofScientific_shiftLeft hcanonical
    next hfraction =>
      obtain ⟨places, rfl⟩ : ∃ places : Nat, exponent = -places := ⟨(-exponent).toNat, by omega⟩
      have hplaces : (-(-places : Int)).toNat = places := by omega
      rw [hplaces]
      exact ofScientific_mul_pow hcanonical (by omega)
  calc
    (Decimal.exact mantissa exponent).toSingle
        = Float32.ofModel (.pack (.finite .positive mantissa exponent hpos)) :=
          congrArg (fun parts => Float32.ofModel (.pack parts)) hread
    _ = x := by rw [← hparts, ofModel_pack_unpack]

/-! ### The shortest decimal of a number -/

/-- A decimal that the search ends with has passed the test of being read back. -/
theorem toSingle_search {tie : Decimal.Tie} {x : Float32} {mantissa : Nat} {exponent place : Int}
    {steps : Nat} {d : Decimal}
    (hsearch : Decimal.search tie x mantissa exponent steps place = some d) : d.toSingle = x := by
  induction steps generalizing place with
  | zero => cases hsearch
  | succ steps ih =>
      unfold Decimal.search at hsearch
      dsimp only at hsearch
      split at hsearch
      next found hfound =>
        cases hsearch
        have htested := List.find?_some hfound
        exact of_decide_eq_true htested
      next => exact ih hsearch

/-- The decimal that a number is written with is read as the number. -/
theorem toSingle_shortest (tie : Decimal.Tie) {x : Float32} (hfinite : x.isFinite = true)
    (hsign : isNegative x = false) : (Decimal.shortest tie x).toSingle = x := by
  have habs := abs_of_not_isNegative hsign
  have hfiniteParts : x.toModel.unpack.isFinite = true := hfinite
  rw [isNegative] at hsign
  rw [Decimal.shortest]
  cases hparts : x.toModel.unpack with
  | notANumber => rw [hparts] at hfiniteParts; cases hfiniteParts
  | infinity sign => rw [hparts] at hfiniteParts; cases hfiniteParts
  | zero sign =>
      rw [hparts] at hsign
      cases sign with
      | negative => cases hsign
      | positive =>
          rw [← ofModel_pack_unpack x, hparts]
          rfl
  | finite sign mantissa exponent hpos =>
      rw [hparts] at hsign
      cases sign with
      | negative => cases hsign
      | positive =>
          dsimp only
          rw [habs]
          generalize hsearch : Decimal.search tie x mantissa exponent _ _ = found
          cases found with
          | none => exact toSingle_exact hparts
          | some d => exact toSingle_search hsearch

end MotionScript.Single
