import MotionScript.Proofs.Number.Sign
import MotionScript.Proofs.Number.Value
/-!
# Bounds of results

Sums and products of finite numbers are finite as long as the exact result is at most the greatest
power of two that the format has.  So the powers of two that bound the operands bound the result, up
to that power: a sum needs one bit more than its operands, and a product as many as both together.
A quotient by a finite number that is not zero is at least a number.
-/

namespace MotionScript

open Float.Model (Format UnpackedFloat)
open Float.Model.UnpackedFloat
open MotionScript.Parts

namespace Single

variable {x y : Float32} {limit xLimit yLimit mantissa : Nat} {exponent : Int}

/-! ### Rounding -/

/-- What fits the format up to its exponent is put together if it is not too large. -/
theorem within_of_fitsBelow (sign : Sign) (hpos : 0 < mantissa)
    (hfits : FitsBelow .binary32 mantissa exponent) (hvalue : weight mantissa exponent ≤ 2 ^ limit)
    (hlimit : limit ≤ 127) :
    Within limit (.ofModel (.pack (.finite sign mantissa exponent hpos))) := by
  have hlog := log2_add_le hpos hvalue
  have hhigh : exponent ≤ 104 := by
    obtain hlong | hleast := hfits.form
    · have hlength : 23 ≤ mantissa.log2 := (Nat.le_log2 (Nat.ne_of_gt hpos)).2 hlong
      omega
    · rw [hleast]
      decide
  have hcanonical : Canonical (.finite sign mantissa exponent hpos) :=
    ⟨hfits.most, hfits.low, hhigh, hfits.form⟩
  exact (within_of_unpack (unpack_ofModel_pack hcanonical)).2 hvalue

theorem within_zero (sign : Sign) : Within limit (.ofModel (.pack (.zero sign))) :=
  within_of_unpack_zero (unpack_ofModel_pack trivial)

/-- Rounding stays within a power of two that the value is within. -/
theorem within_roundWithAccuracy (sign : Sign) (hpos : 0 < mantissa)
    (hform : 23 ≤ mantissa.log2 ∨ exponent ≤ -149) (hvalue : weight mantissa exponent ≤ 2 ^ limit)
    (hlimit : limit ≤ 127) :
    Within limit
      (.ofModel (.pack (roundWithAccuracy .binary32 sign mantissa exponent .exact))) := by
  have hform' : Format.binary32.mantissaBitsWithoutImplicit ≤ mantissa.log2 ∨
      exponent ≤ Format.binary32.minExponent := hform
  obtain ⟨mantissa', exponent', hfits, hvalue', hround⟩ :=
    roundWithAccuracy_le sign hpos hform' hvalue
  rw [hround]
  split
  · exact within_zero sign
  next hne => exact within_of_fitsBelow sign (Nat.pos_of_ne_zero hne) hfits hvalue' hlimit

theorem within_round (sign : Sign) (hpos : 0 < mantissa) (hlow : -149 ≤ exponent)
    (hvalue : weight mantissa exponent ≤ 2 ^ limit) (hlimit : limit ≤ 127) :
    Within limit (.ofModel (.pack (UnpackedFloat.round .binary32 sign mantissa exponent))) := by
  have hlow' : Format.binary32.minExponent ≤ exponent := hlow
  obtain ⟨-, hform⟩ := shortage_bounds hlow' mantissa
  rw [← log2_shiftLeft hpos] at hform
  rw [round_eq]
  refine within_roundWithAccuracy sign (shiftLeft_pos hpos _) (hform.imp_right le_of_eq) ?_ hlimit
  rwa [weight_shiftLeft]

/-- A sum that is put together from aligned mantissas stays within a power of two. -/
theorem within_normalize {mantissa : Int} (hlow : -149 ≤ exponent)
    (hvalue : weight mantissa.natAbs exponent ≤ 2 ^ limit) (hlimit : limit ≤ 127) (sign : Sign) :
    Within limit
      (.ofModel (.pack (UnpackedFloat.normalize .binary32 mantissa exponent sign))) := by
  rw [UnpackedFloat.normalize]
  split
  next hless =>
    have hnegative := Int.compare_eq_lt.1 hless
    have habs : (-mantissa).toNat = mantissa.natAbs := by omega
    rw [← habs] at hvalue
    exact within_round .negative (by omega) hlow hvalue hlimit
  next => exact within_zero sign
  next hgreater =>
    have hpositive := Int.compare_eq_gt.1 hgreater
    have habs : mantissa.toNat = mantissa.natAbs := by omega
    rw [← habs] at hvalue
    exact within_round .positive (by omega) hlow hvalue hlimit

/-! ### Sums and products -/

/-- The parts of a finite number. -/
theorem unpack_of_isFinite (hfinite : x.isFinite = true) :
    (∃ sign, x.toModel.unpack = .zero sign) ∨
      ∃ sign mantissa exponent, ∃ hpos : 0 < mantissa,
        x.toModel.unpack = .finite sign mantissa exponent hpos := by
  change x.toModel.unpack.isFinite = true at hfinite
  cases hparts : x.toModel.unpack with
  | notANumber => rw [hparts] at hfinite; cases hfinite
  | infinity sign => rw [hparts] at hfinite; cases hfinite
  | zero sign => exact Or.inl ⟨sign, rfl⟩
  | finite sign mantissa exponent hpos => exact Or.inr ⟨sign, mantissa, exponent, hpos, rfl⟩

/-- The exponents of numbers are within the format. -/
theorem exponent_ge_of_unpack {sign : Sign} {hpos : 0 < mantissa}
    (hparts : x.toModel.unpack = .finite sign mantissa exponent hpos) :
    -149 ≤ exponent ∧ (2 ^ 23 ≤ mantissa ∨ exponent = -149) := by
  have hcanonical := canonical_parts x
  rw [hparts] at hcanonical
  exact ⟨hcanonical.2.1, hcanonical.2.2.2⟩

/-- Over the lower of two exponents a sum of mantissas stands for the sum of the values. -/
theorem weight_natAbs_le (leftSign rightSign : Sign) (m₁ m₂ : Nat) (e₁ e₂ : Int) :
    weight (leftSign.apply (m₁ <<< (e₁ - min e₁ e₂).toNat : Nat) +
        rightSign.apply (m₂ <<< (e₂ - min e₁ e₂).toNat : Nat)).natAbs (min e₁ e₂) ≤
      weight m₁ e₁ + weight m₂ e₂ := by
  have haligned (mantissa : Nat) {exponent : Int} (hle : min e₁ e₂ ≤ exponent) :
      weight (mantissa <<< (exponent - min e₁ e₂).toNat) (min e₁ e₂) =
        weight mantissa exponent := by
    rw [← weight_shiftLeft mantissa (exponent - min e₁ e₂).toNat exponent]
    congr 1
    omega
  have habs (sign : Sign) (n : Nat) : (sign.apply (n : Int)).natAbs = n := by
    cases sign <;> simp [Sign.apply]
  rw [← haligned m₁ (Int.min_le_left e₁ e₂), ← haligned m₂ (Int.min_le_right e₁ e₂), weight, weight,
    weight, ← add_mul, ← Nat.cast_add]
  gcongr
  refine (Int.natAbs_add_le _ _).trans ?_
  rw [habs, habs]

/-- A sum is within every power of two that is greater than those of its parts. -/
theorem Within.add (hx : Within xLimit x) (hy : Within yLimit y) (hxLimit : xLimit < limit)
    (hyLimit : yLimit < limit) (hlimit : limit ≤ 127) : Within limit (x + y) := by
  change Within limit
    (.ofModel (.pack (UnpackedFloat.add .binary32 x.toModel.unpack y.toModel.unpack)))
  obtain ⟨sign, hparts⟩ | ⟨sign, m₁, e₁, hpos, hparts⟩ := unpack_of_isFinite hx.isFinite
  · obtain ⟨sign', hparts'⟩ | ⟨sign', m₂, e₂, hpos', hparts'⟩ := unpack_of_isFinite hy.isFinite
    · rw [hparts, hparts', UnpackedFloat.add]
      split <;> exact within_zero _
    · rw [hparts, hparts']
      change Within limit (.ofModel (.pack (.finite sign' m₂ e₂ hpos')))
      rw [← hparts', ofModel_pack_unpack]
      exact hy.mono hyLimit.le
  · obtain ⟨sign', hparts'⟩ | ⟨sign', m₂, e₂, hpos', hparts'⟩ := unpack_of_isFinite hy.isFinite
    · rw [hparts, hparts']
      change Within limit (.ofModel (.pack (.finite sign m₁ e₁ hpos)))
      rw [← hparts, ofModel_pack_unpack]
      exact hx.mono hxLimit.le
    · obtain ⟨below, rfl⟩ : ∃ below, limit = below + 1 := ⟨limit - 1, by omega⟩
      have hlow := (exponent_ge_of_unpack hparts).1
      have hlow' := (exponent_ge_of_unpack hparts').1
      have hvalue := (within_of_unpack hparts).1 (hx.mono (Nat.le_of_lt_succ hxLimit))
      have hvalue' := (within_of_unpack hparts').1 (hy.mono (Nat.le_of_lt_succ hyLimit))
      rw [hparts, hparts']
      refine within_normalize (Int.le_min.2 ⟨hlow, hlow'⟩) ?_ hlimit .positive
      refine (weight_natAbs_le sign sign' m₁ m₂ e₁ e₂).trans ?_
      rw [pow_succ, mul_two]
      exact add_le_add hvalue hvalue'

/-- A difference is the sum with the negated number. -/
theorem unpacked_sub_eq (left right : UnpackedFloat) :
    UnpackedFloat.sub .binary32 left right = UnpackedFloat.add .binary32 left right.neg := by
  have happly (sign : Sign) (n : Int) : (-sign).apply n = -sign.apply n := by
    cases sign with
    | negative => exact (Int.neg_neg n).symm
    | positive => rfl
  cases left with
  | finite leftSign m₁ e₁ hleft =>
      cases right with
      | finite rightSign m₂ e₂ hright =>
          simp only [UnpackedFloat.sub, UnpackedFloat.add, UnpackedFloat.neg, happly,
            Int.sub_eq_add_neg]
      | _ => rfl
  | _ => cases right <;> rfl

theorem sub_eq_add_neg (x y : Float32) : x - y = x + -y := by
  change Float32.ofModel (.pack (UnpackedFloat.sub .binary32 x.toModel.unpack y.toModel.unpack)) =
    Float32.ofModel (.pack (UnpackedFloat.add .binary32 x.toModel.unpack (-y).toModel.unpack))
  rw [unpacked_sub_eq, unpack_neg]

theorem Within.sub (hx : Within xLimit x) (hy : Within yLimit y) (hxLimit : xLimit < limit)
    (hyLimit : yLimit < limit) (hlimit : limit ≤ 127) : Within limit (x - y) := by
  rw [sub_eq_add_neg]
  exact hx.add hy.neg hxLimit hyLimit hlimit

/-- A product is within the product of the powers of two that its factors are within. -/
theorem Within.mul (hx : Within xLimit x) (hy : Within yLimit y) (hsum : xLimit + yLimit ≤ limit)
    (hlimit : limit ≤ 127) : Within limit (x * y) := by
  change Within limit
    (.ofModel (.pack (UnpackedFloat.mul .binary32 x.toModel.unpack y.toModel.unpack)))
  obtain ⟨sign, hparts⟩ | ⟨sign, m₁, e₁, hpos, hparts⟩ := unpack_of_isFinite hx.isFinite
  · obtain ⟨sign', hparts'⟩ | ⟨sign', m₂, e₂, hpos', hparts'⟩ := unpack_of_isFinite hy.isFinite <;>
      rw [hparts, hparts'] <;> exact within_zero _
  · obtain ⟨sign', hparts'⟩ | ⟨sign', m₂, e₂, hpos', hparts'⟩ := unpack_of_isFinite hy.isFinite
    · rw [hparts, hparts']
      exact within_zero _
    · obtain ⟨hlow, hform⟩ := exponent_ge_of_unpack hparts
      obtain ⟨hlow', hform'⟩ := exponent_ge_of_unpack hparts'
      have hvalue := (within_of_unpack hparts).1 hx
      have hvalue' := (within_of_unpack hparts').1 hy
      rw [hparts, hparts']
      have hproduct : 0 < m₁ * m₂ := Nat.mul_pos hpos hpos'
      refine within_roundWithAccuracy (sign * sign') hproduct ?_ ?_ hlimit
      · -- a product with a mantissa of full length has one as well
        rw [Nat.le_log2 hproduct.ne']
        obtain hlong | hleast := hform
        · exact Or.inl (hlong.trans (Nat.le_mul_of_pos_right m₁ hpos'))
        · obtain hlong' | hleast' := hform'
          · exact Or.inl (hlong'.trans (Nat.le_mul_of_pos_left m₂ hpos))
          · omega
      · rw [weight_mul]
        calc
          weight m₁ e₁ * weight m₂ e₂ ≤ 2 ^ xLimit * 2 ^ yLimit :=
            mul_le_mul hvalue hvalue' (weight_pos hpos' e₂).le (by positivity)
          _ = 2 ^ (xLimit + yLimit) := (pow_add _ _ _).symm
          _ ≤ 2 ^ limit := pow_le_pow_right₀ one_le_two hsum

/-! ### Numbers that are not finite -/

/-- Putting parts together makes them not-a-number only if they are. -/
theorem isNaN_ofModel_pack (parts : UnpackedFloat) :
    (Float32.ofModel (.pack parts)).isNaN = parts.isNaN := by
  change (unpack .binary32 (pack .binary32 parts)).isNaN = parts.isNaN
  cases parts with
  | notANumber => rfl
  | infinity sign => cases sign <;> rfl
  | zero sign => cases sign <;> rfl
  | finite sign mantissa exponent hpos =>
      obtain hpack | ⟨exponent', mantissa', hfinite, hpack⟩ := pack_finite sign exponent hpos
      · rw [hpack]
        cases sign <;> rfl
      · rw [hpack, unpack]
        simp only [unpackExponent_packComponents, unpackMantissa_packComponents,
          unpackSign_packComponents, Sign.ofBitVec_toBitVec]
        rw [if_neg hfinite]
        split
        · split <;> rfl
        · rfl

theorem isNaN_roundWithAccuracy (format : Format) (sign : Sign) (mantissa : Nat) (exponent : Int)
    (accuracy : Accuracy) :
    (roundWithAccuracy format sign mantissa exponent accuracy).isNaN = false := by
  rw [roundWithAccuracy]
  dsimp only
  split <;> rfl

theorem isNaN_normalize (format : Format) (mantissa exponent : Int) (sign : Sign) :
    (UnpackedFloat.normalize format mantissa exponent sign).isNaN = false := by
  rw [UnpackedFloat.normalize]
  split
  · exact isNaN_roundWithAccuracy _ _ _ _ _
  · rfl
  · exact isNaN_roundWithAccuracy _ _ _ _ _

/-- Less a finite number, a number is a number. -/
theorem isNaN_sub (hx : x.isNaN = false) (hy : y.isFinite = true) : (x - y).isNaN = false := by
  change (Float32.ofModel (.pack
    (UnpackedFloat.sub .binary32 x.toModel.unpack y.toModel.unpack))).isNaN = false
  change x.toModel.unpack.isNaN = false at hx
  rw [isNaN_ofModel_pack]
  obtain ⟨sign, hparts⟩ | ⟨sign, mantissa, exponent, hpos, hparts⟩ := unpack_of_isFinite hy
  · rw [hparts]
    cases hparts' : x.toModel.unpack with
    | notANumber => rw [hparts'] at hx; cases hx
    | zero sign' => rw [UnpackedFloat.sub]; split <;> rfl
    | _ => rfl
  · rw [hparts]
    cases hparts' : x.toModel.unpack with
    | notANumber => rw [hparts'] at hx; cases hx
    | finite sign' mantissa' exponent' hpos' => exact isNaN_normalize _ _ _ _
    | _ => rfl

/-- Divided by a finite number other than zero, a number is a number. -/
theorem isNaN_div (hx : x.isNaN = false) (hy : y.isFinite = true)
    (hzero : (y == ((0 : Nat) : Float32)) = false) : (x / y).isNaN = false := by
  change (Float32.ofModel (.pack
    (UnpackedFloat.div .binary32 x.toModel.unpack y.toModel.unpack))).isNaN = false
  rw [isNaN_ofModel_pack]
  obtain ⟨sign, hparts⟩ | ⟨sign, mantissa, exponent, hpos, hparts⟩ := unpack_of_isFinite hy
  · have hlevel : level y = level ((0 : Nat) : Float32) := by
      rw [level, hparts, place_zero]
      decide
    rw [(beq_iff (isNaN_of_isFinite hy) (by decide)).2 hlevel] at hzero
    cases hzero
  · change x.toModel.unpack.isNaN = false at hx
    rw [hparts]
    cases hparts' : x.toModel.unpack with
    | notANumber => rw [hparts'] at hx; cases hx
    | finite sign' mantissa' exponent' hpos' => exact isNaN_roundWithAccuracy _ _ _ _ _
    | _ => rfl

/-- Putting parts together makes a finite number only of finite parts. -/
theorem isFinite_of_ofModel_pack {parts : UnpackedFloat}
    (hfinite : (Float32.ofModel (.pack parts)).isFinite = true) : parts.isFinite = true := by
  cases parts with
  | notANumber => exact hfinite
  | infinity sign => cases sign <;> exact hfinite
  | _ => rfl

/-- A difference is finite only if what is taken away is. -/
theorem isFinite_of_isFinite_sub (hfinite : (x - y).isFinite = true) : y.isFinite = true := by
  have hparts : (UnpackedFloat.sub .binary32 x.toModel.unpack y.toModel.unpack).isFinite = true :=
    isFinite_of_ofModel_pack hfinite
  change y.toModel.unpack.isFinite = true
  generalize x.toModel.unpack = left, y.toModel.unpack = right at hparts ⊢
  cases right with
  | notANumber => cases left <;> cases hparts
  | infinity sign =>
      cases left with
      | infinity sign' =>
          rw [UnpackedFloat.sub] at hparts
          split at hparts <;> cases hparts
      | _ => cases hparts
  | _ => rfl

/-- A quotient is finite only if what is divided is. -/
theorem isFinite_of_isFinite_div (hfinite : (x / y).isFinite = true) : x.isFinite = true := by
  have hparts : (UnpackedFloat.div .binary32 x.toModel.unpack y.toModel.unpack).isFinite = true :=
    isFinite_of_ofModel_pack hfinite
  change x.toModel.unpack.isFinite = true
  generalize x.toModel.unpack = left, y.toModel.unpack = right at hparts ⊢
  cases left with
  | notANumber => cases hparts
  | infinity sign => cases right <;> cases hparts
  | _ => rfl

end Single

end MotionScript
