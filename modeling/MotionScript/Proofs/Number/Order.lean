import MotionScript.Proofs.Number.Sign
/-!
# Comparing numbers

The parts of a number that fit the format are compared like integers: an exponent and a mantissa
behind it are the digits of one, which is the bit pattern without its sign.  So numbers are ordered
linearly, not-a-number aside and the two zeros being one, and the order by which times are sorted
refines that order.
-/

namespace MotionScript.Single

open Float.Model (Format UnpackedFloat)
open Float.Model.UnpackedFloat

/-- The bit pattern without its sign. -/
def magnitude : UnpackedFloat → Int
  | .finite _ mantissa exponent _ => (exponent + 149) * 2 ^ 23 + mantissa
  | .zero _ => 0
  | .infinity _ => 255 * 2 ^ 23
  | .notANumber => 0

/-- Where parts stand among all parts that are a number. -/
def place (parts : UnpackedFloat) : Int :=
  match parts with
  | .finite sign .. | .zero sign | .infinity sign => sign.apply (magnitude parts)
  | .notANumber => 0

/-- Where a number stands among all numbers. -/
def level (x : Float32) : Int :=
  place x.toModel.unpack

/-! ### Comparing parts -/

@[simp] theorem place_zero (sign : Sign) : place (.zero sign) = 0 := by
  cases sign <;> rfl

section Parts

variable {sign leftSign rightSign : Sign} {mantissa m₁ m₂ : Nat} {exponent e₁ e₂ : Int}
  {hpos : 0 < mantissa} {hleft : 0 < m₁} {hright : 0 < m₂}

theorem magnitude_finite (hcanonical : Canonical (.finite sign mantissa exponent hpos)) :
    0 < magnitude (.finite sign mantissa exponent hpos) ∧
      magnitude (.finite sign mantissa exponent hpos) < 255 * 2 ^ 23 := by
  obtain ⟨hmost, hlow, hhigh, -⟩ := hcanonical
  simp only [magnitude]
  omega

/-- The place of a number up to its sign takes 31 bits. -/
theorem magnitude_bounds {parts : UnpackedFloat} (hcanonical : Canonical parts) :
    0 ≤ magnitude parts ∧ magnitude parts < 2 ^ 31 := by
  cases parts with
  | finite sign mantissa exponent hpos =>
      have hbounds := magnitude_finite hcanonical
      omega
  | infinity sign => simp [magnitude]
  | zero sign => simp [magnitude]
  | notANumber => simp [magnitude]

/-- Of two exponents the greater one decides, as its mantissa is not shorter. -/
theorem then_compare_mantissa (hcanonical : Canonical (.finite leftSign m₁ e₁ hleft))
    (hcanonical' : Canonical (.finite rightSign m₂ e₂ hright)) :
    (compare e₁ e₂).then (compare m₁ m₂) =
      compare (magnitude (.finite leftSign m₁ e₁ hleft))
        (magnitude (.finite rightSign m₂ e₂ hright)) := by
  obtain ⟨hmost, hlow, -, hform⟩ := hcanonical
  obtain ⟨hmost', hlow', -, hform'⟩ := hcanonical'
  simp only [magnitude]
  obtain hlt | rfl | hgt := Int.lt_trichotomy e₁ e₂
  · rw [Int.compare_eq_lt.2 hlt, Int.compare_eq_lt.2 (by omega)]
    rfl
  · rw [Int.compare_eq_eq.2 rfl, Ordering.eq_then]
    simp only [compare, compareOfLessAndEq]
    grind
  · rw [Int.compare_eq_gt.2 hgt, Int.compare_eq_gt.2 (by omega)]
    rfl

theorem compare_neg_neg (a b : Int) : compare (-a) (-b) = compare b a := by
  obtain hlt | rfl | hgt := Int.lt_trichotomy a b
  · rw [Int.compare_eq_gt.2 hlt, Int.compare_eq_gt.2 (Int.neg_lt_neg hlt)]
  · rw [Int.compare_eq_eq.2 rfl, Int.compare_eq_eq.2 rfl]
  · rw [Int.compare_eq_lt.2 hgt, Int.compare_eq_lt.2 (Int.neg_lt_neg hgt)]

/-- Finite numbers are compared by their places in the order of all bit patterns. -/
theorem compare_finite (hcanonical : Canonical (.finite leftSign m₁ e₁ hleft))
    (hcanonical' : Canonical (.finite rightSign m₂ e₂ hright)) :
    UnpackedFloat.compare (.finite leftSign m₁ e₁ hleft) (.finite rightSign m₂ e₂ hright) =
      some (compare (place (.finite leftSign m₁ e₁ hleft))
        (place (.finite rightSign m₂ e₂ hright))) := by
  have hbounds := magnitude_finite hcanonical
  have hbounds' := magnitude_finite hcanonical'
  have hthen := then_compare_mantissa hcanonical hcanonical'
  cases leftSign <;> cases rightSign <;>
    simp only [UnpackedFloat.compare, place, Sign.apply, hthen, Option.some.injEq]
  case negative.negative =>
    rw [Int.compare_swap, compare_neg_neg]
  case negative.positive => exact (Int.compare_eq_lt.2 (by omega)).symm
  case positive.negative => exact (Int.compare_eq_gt.2 (by omega)).symm

theorem place_positive (hcanonical : Canonical (.finite .positive mantissa exponent hpos)) :
    0 < place (.finite .positive mantissa exponent hpos) :=
  (magnitude_finite hcanonical).1

theorem place_negative (hcanonical : Canonical (.finite .negative mantissa exponent hpos)) :
    place (.finite .negative mantissa exponent hpos) < 0 :=
  Int.neg_neg_of_pos (magnitude_finite hcanonical).1

/-- A number with a mantissa stands between the infinities. -/
theorem place_bounds (hcanonical : Canonical (.finite sign mantissa exponent hpos)) :
    -(255 * 2 ^ 23) < place (.finite sign mantissa exponent hpos) ∧
      place (.finite sign mantissa exponent hpos) < 255 * 2 ^ 23 := by
  have hbounds := magnitude_finite hcanonical
  cases sign <;> simp only [place, Sign.apply] <;> omega

/-- Comparing parts is comparing their places. -/
theorem compare_eq {left right : UnpackedFloat} (hcanonical : Canonical left)
    (hcanonical' : Canonical right) (hnumber : left.isNaN = false)
    (hnumber' : right.isNaN = false) :
    UnpackedFloat.compare left right = some (compare (place left) (place right)) := by
  have hless {a b : Int} (hlt : a < b) : some .lt = some (compare a b) :=
    congrArg some (Int.compare_eq_lt.2 hlt).symm
  have hgreater {a b : Int} (hgt : b < a) : some .gt = some (compare a b) :=
    congrArg some (Int.compare_eq_gt.2 hgt).symm
  cases left with
  | notANumber => cases hnumber
  | infinity sign =>
      cases right with
      | notANumber => cases hnumber'
      | infinity sign' => cases sign <;> cases sign' <;> rfl
      | zero sign' => cases sign <;> cases sign' <;> rfl
      | finite sign' mantissa exponent hpos =>
          obtain ⟨hlower, hupper⟩ := place_bounds hcanonical'
          cases sign with
          | negative => exact hless hlower
          | positive => exact hgreater hupper
  | zero sign =>
      cases right with
      | notANumber => cases hnumber'
      | infinity sign' => cases sign <;> cases sign' <;> rfl
      | zero sign' => cases sign <;> cases sign' <;> rfl
      | finite sign' mantissa exponent hpos =>
          rw [place_zero]
          cases sign' with
          | negative => exact hgreater (place_negative hcanonical')
          | positive => exact hless (place_positive hcanonical')
  | finite sign mantissa exponent hpos =>
      cases right with
      | notANumber => cases hnumber'
      | infinity sign' =>
          obtain ⟨hlower, hupper⟩ := place_bounds hcanonical
          cases sign' with
          | negative =>
              cases sign <;> exact hgreater hlower
          | positive => cases sign <;> exact hless hupper
      | zero sign' =>
          rw [place_zero]
          cases sign with
          | negative => exact hless (place_negative hcanonical)
          | positive => exact hgreater (place_positive hcanonical)
      | finite sign' mantissa' exponent' hpos' => exact compare_finite hcanonical hcanonical'

end Parts

/-! ### Comparing numbers -/

section Numbers

variable {x y : Float32}

theorem isNaN_of_isFinite (hfinite : x.isFinite = true) : x.isNaN = false :=
  ((isFinite_iff x).1 hfinite).1

theorem compare_unpack (hx : x.isNaN = false) (hy : y.isNaN = false) :
    x.toModel.unpack.compare y.toModel.unpack = some (compare (level x) (level y)) :=
  compare_eq (canonical_parts x) (canonical_parts y) hx hy

theorem lt_iff (hx : x.isNaN = false) (hy : y.isNaN = false) : x < y ↔ level x < level y := by
  change decide (x.toModel.unpack.lt y.toModel.unpack = true) = true ↔ _
  rw [decide_eq_true_iff, UnpackedFloat.lt, compare_unpack hx hy, beq_iff_eq, Option.some.injEq,
    Int.compare_eq_lt]

theorem le_iff (hx : x.isNaN = false) (hy : y.isNaN = false) : x ≤ y ↔ level x ≤ level y := by
  change decide (x.toModel.unpack.le y.toModel.unpack = true) = true ↔ _
  rw [decide_eq_true_iff, UnpackedFloat.le, compare_unpack hx hy, Option.any_some, Int.isLE_compare]

theorem beq_iff (hx : x.isNaN = false) (hy : y.isNaN = false) :
    (x == y) = true ↔ level x = level y := by
  change (x.toModel.unpack.compare y.toModel.unpack == some .eq) = true ↔ _
  rw [compare_unpack hx hy, beq_iff_eq, Option.some.injEq, Int.compare_eq_eq]

theorem not_le_iff (hx : x.isNaN = false) (hy : y.isNaN = false) : ¬ x ≤ y ↔ y < x := by
  rw [le_iff hx hy, lt_iff hy hx, not_le]

theorem not_lt_iff (hx : x.isNaN = false) (hy : y.isNaN = false) : ¬ x < y ↔ y ≤ x := by
  rw [lt_iff hx hy, le_iff hy hx, not_lt]

theorem le_of_lt (hx : x.isNaN = false) (hy : y.isNaN = false) (hlt : x < y) : x ≤ y :=
  (le_iff hx hy).2 ((lt_iff hx hy).1 hlt).le

theorem lt_trans {z : Float32} (hx : x.isNaN = false) (hy : y.isNaN = false)
    (hz : z.isNaN = false) (hxy : x < y) (hyz : y < z) : x < z :=
  (lt_iff hx hz).2 (((lt_iff hx hy).1 hxy).trans ((lt_iff hy hz).1 hyz))

/-- What is not a number stands where the zeros do. -/
theorem isNaN_of_level_pos (hpos : 0 < level x) : x.isNaN = false := by
  change x.toModel.unpack.isNaN = false
  rw [level] at hpos
  cases hunpack : x.toModel.unpack with
  | notANumber => rw [hunpack] at hpos; cases hpos
  | _ => rfl

end Numbers

/-! ### The order of times -/

theorem toNat_packComponents (sign : Sign) (exponent : BitVec 8) (mantissa : BitVec 23) :
    (packComponents .binary32 sign exponent mantissa).toNat =
      sign.toBitVec.toNat * 2 ^ 31 + exponent.toNat * 2 ^ 23 + mantissa.toNat := by
  rw [packComponents, BitVec.toNat_append, BitVec.toNat_append,
    ← Nat.shiftLeft_add_eq_or_of_lt mantissa.isLt, ← Nat.shiftLeft_add_eq_or_of_lt exponent.isLt,
    Nat.shiftLeft_eq, Nat.shiftLeft_eq]
  omega

theorem toNat_toBitVec (sign : Sign) :
    sign.toBitVec.toNat = if sign == .negative then 1 else 0 := by
  cases sign <;> rfl

/-- The bits of parts that are a number: the sign and then the magnitude. -/
theorem toNat_pack {parts : UnpackedFloat} (hcanonical : Canonical parts)
    (hnumber : parts.isNaN = false) :
    ((pack .binary32 parts).toNat : Int) =
      (if hasNegativeSign parts then 2 ^ 31 else 0) + magnitude parts := by
  cases parts with
  | notANumber => cases hnumber
  | infinity sign => cases sign <;> rfl
  | zero sign => cases sign <;> rfl
  | finite sign mantissa exponent hpos =>
      obtain ⟨hmost, hlow, hhigh, hform⟩ := hcanonical
      have hmantissa : (BitVec.ofNat 23 mantissa).toNat = mantissa % 2 ^ 23 := rfl
      by_cases hleast : 2 ^ 23 ≤ mantissa
      · have hexponent : (BitVec.ofNat 8 (exponent + 150).toNat).toNat =
            (exponent + 150).toNat % 2 ^ 8 := rfl
        rw [pack_normal sign hpos (isNormal hleast hmost hlow hhigh), toNat_packComponents,
          toNat_toBitVec, hexponent, hmantissa]
        simp only [magnitude, hasNegativeSign]
        cases sign <;> simp <;> omega
      · obtain rfl : exponent = -149 := hform.resolve_left hleast
        rw [pack_subnormal sign hpos (Nat.not_le.1 hleast), toNat_packComponents, toNat_toBitVec,
          hmantissa]
        simp only [magnitude, hasNegativeSign]
        cases sign <;> simp <;> omega

theorem place_eq {parts : UnpackedFloat} :
    place parts = if hasNegativeSign parts then -magnitude parts else magnitude parts := by
  cases parts with
  | notANumber => rfl
  | infinity sign => cases sign <;> rfl
  | zero sign => cases sign <;> rfl
  | finite sign mantissa exponent hpos => cases sign <;> rfl

theorem toNat_toBits (x : Float32) (hx : x.isNaN = false) :
    (x.toBits.toNat : Int) =
      (if isNegative x then 2 ^ 31 else 0) + magnitude x.toModel.unpack := by
  rw [isNegative_eq, ← toNat_pack (canonical_parts x) hx]
  exact congrArg (fun number : Float32 => (number.toBits.toNat : Int))
    (ofModel_pack_unpack x).symm

/-- The order of times sees the sign of a zero, and goes by the level otherwise. -/
theorem rank_eq {x : Float32} (hx : x.isNaN = false) :
    rank x = if isNegative x then level x - 1 else level x := by
  have hbits := toNat_toBits x hx
  have hbounds := magnitude_bounds (canonical_parts x)
  rw [rank, level, place_eq, ← isNegative_eq]
  cases hsign : isNegative x with
  | false =>
      rw [hsign, if_neg Bool.false_ne_true] at hbits
      rw [if_neg Bool.false_ne_true, if_neg Bool.false_ne_true, if_pos (by omega)]
      omega
  | true =>
      rw [hsign, if_pos rfl] at hbits
      rw [if_pos rfl, if_pos rfl, if_neg (by omega)]
      omega

theorem level_nonpos {x : Float32} (hnegative : isNegative x = true) : level x ≤ 0 := by
  have hbounds := magnitude_bounds (canonical_parts x)
  rw [level, place_eq, ← isNegative_eq, if_pos hnegative]
  omega

theorem level_nonneg {x : Float32} (hsign : isNegative x = false) : 0 ≤ level x := by
  have hbounds := magnitude_bounds (canonical_parts x)
  rw [level, place_eq, ← isNegative_eq, hsign, if_neg Bool.false_ne_true]
  exact hbounds.1

/-- Numbers in the order of times do not descend. -/
theorem level_le_of_rank_le {x y : Float32} (hx : x.isNaN = false) (hy : y.isNaN = false)
    (hrank : rank x ≤ rank y) : level x ≤ level y := by
  rw [rank_eq hx, rank_eq hy] at hrank
  cases hleft : isNegative x with
  | true =>
      have hnonpos := level_nonpos hleft
      cases hright : isNegative y with
      | true =>
          rw [if_pos hleft, if_pos hright] at hrank
          omega
      | false => exact hnonpos.trans (level_nonneg hright)
  | false =>
      rw [hleft, if_neg Bool.false_ne_true] at hrank
      split at hrank <;> omega

/-! ### Numbers that are equal -/

/-- Nothing that is not a number is equal to anything. -/
theorem isNaN_of_beq {x y : Float32} (hequal : (x == y) = true) :
    x.isNaN = false ∧ y.isNaN = false := by
  change (x.toModel.unpack.compare y.toModel.unpack == some .eq) = true at hequal
  change x.toModel.unpack.isNaN = false ∧ y.toModel.unpack.isNaN = false
  cases hleft : x.toModel.unpack with
  | notANumber => rw [hleft] at hequal; cases hequal
  | _ =>
      cases hright : y.toModel.unpack with
      | notANumber => rw [hleft, hright] at hequal; cases hequal
      | _ => exact ⟨rfl, rfl⟩

theorem level_eq_of_beq {x y : Float32} (hequal : (x == y) = true) : level x = level y :=
  (beq_iff (isNaN_of_beq hequal).1 (isNaN_of_beq hequal).2).1 hequal

/-- Numbers that equal a third one have the same rank if their sign is the same. -/
theorem rank_eq_of_beq {x y z : Float32} (hx : (x == z) = true) (hy : (y == z) = true)
    (hsign : isNegative x = isNegative y) : rank x = rank y := by
  rw [rank_eq (isNaN_of_beq hx).1, rank_eq (isNaN_of_beq hy).1, level_eq_of_beq hx,
    level_eq_of_beq hy, hsign]

/-- But for zero, the sign of a number says on which side of zero it is. -/
theorem isNegative_eq_decide {x : Float32} (hnonzero : level x ≠ 0) :
    isNegative x = decide (level x < 0) := by
  cases hsign : isNegative x with
  | true =>
      have hnonpos := level_nonpos hsign
      exact (decide_eq_true (by omega)).symm
  | false =>
      have hnonneg := level_nonneg hsign
      exact (decide_eq_false (by omega)).symm

/-- Only zeros can be equal and differ in their sign. -/
theorem isNegative_eq_of_beq {x y : Float32} (hequal : (x == y) = true)
    (hzero : (y == 0) = false) : isNegative x = isNegative y := by
  have hlevel := level_eq_of_beq hequal
  have hnonzero : level y ≠ 0 := by
    rw [ne_eq, show (0 : Int) = level 0 from rfl,
      ← beq_iff (isNaN_of_beq hequal).2 (by decide), hzero]
    exact Bool.false_ne_true
  rw [isNegative_eq_decide hnonzero, isNegative_eq_decide (hlevel ▸ hnonzero), hlevel]

end MotionScript.Single
