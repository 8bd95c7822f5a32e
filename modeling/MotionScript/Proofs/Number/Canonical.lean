import MotionScript.Number.Single
import MotionScript.Proofs.Number.Format
/-!
# The parts of a number

A single precision number is its sign, mantissa and exponent: taking a number apart gives a
mantissa of at most twenty-four bits with the exponent that belongs to it, and such parts make up
one number.  So the sign of a number can be turned and turned back.
-/

namespace MotionScript.Single

open Float.Model (Format UnpackedFloat)
open Float.Model.UnpackedFloat
open MotionScript.Parts

/-- Parts that fit the format: the mantissa is as long as it may be, unless the exponent is the
least one. -/
def Canonical : UnpackedFloat → Prop
  | .finite _ mantissa exponent _ =>
    mantissa < 2 ^ 24 ∧ -149 ≤ exponent ∧ exponent ≤ 104 ∧ (2 ^ 23 ≤ mantissa ∨ exponent = -149)
  | _ => True

theorem log2_lt {mantissa : Nat} (hpos : 0 < mantissa) (hmost : mantissa < 2 ^ 23) :
    mantissa.log2 < 23 :=
  (Nat.log2_lt (Nat.ne_of_gt hpos)).2 hmost

/-! ### Taking apart and putting together -/

/-- The exponent of a number that is neither infinite nor not-a-number. -/
theorem toNat_exponent_lt {exponent : BitVec 8} (hfinite : exponent ≠ -1#8) :
    exponent.toNat < 255 := by
  have hlt := exponent.isLt
  have hne : exponent.toNat ≠ 255 := fun heq => hfinite (BitVec.eq_of_toNat_eq heq)
  omega

theorem toNat_pos_of_ne {width : Nat} {bits : BitVec width} (hne : bits ≠ BitVec.ofNat width 0) :
    0 < bits.toNat :=
  Nat.pos_of_ne_zero fun hzero => hne (BitVec.eq_of_toNat_eq (hzero.trans BitVec.toNat_zero.symm))

/-- The parts of any bit pattern fit the format. -/
theorem canonical_unpack (bits : BitVec Format.binary32.numBits) :
    Canonical (unpack .binary32 bits) := by
  have hbias : (Format.binary32.exponentBias : Int) = 127 := rfl
  have hwidth : (Format.binary32.mantissaBitsWithoutImplicit : Int) = 23 := rfl
  have hmantissa : (unpackMantissa bits).toNat < 2 ^ 23 := (unpackMantissa bits).isLt
  rw [unpack]
  split
  · split <;> trivial
  next hfinite =>
    split
    next hleast =>
      split
      · trivial
      · have hzero : (unpackExponent bits).toNat = 0 := by rw [hleast]; rfl
        refine ⟨by omega, ?_, ?_, Or.inr ?_⟩ <;> omega
    next hnormal =>
      have hupper := toNat_exponent_lt hfinite
      have hlower := toNat_pos_of_ne hnormal
      have hvalue : (1#1 ++ unpackMantissa bits).toNat = 2 ^ 23 + (unpackMantissa bits).toNat :=
        toNat_one_append (unpackMantissa bits)
      refine ⟨?_, ?_, ?_, Or.inl ?_⟩ <;> omega

/-- A mantissa that is too short for a leading bit is packed with the least exponent field. -/
theorem pack_subnormal (sign : Sign) {mantissa : Nat} (hpos : 0 < mantissa)
    (hmost : mantissa < 2 ^ 23) :
    pack .binary32 (.finite sign mantissa (-149) hpos) =
      packComponents .binary32 sign 0#8 (BitVec.ofNat 23 mantissa) := by
  have hlog : mantissa.log2 + 1 ≠ Format.binary32.mantissaBits :=
    Nat.ne_of_lt (Nat.succ_lt_succ (log2_lt hpos hmost))
  have hfits : ¬ 2 ^ Format.binary32.exponentBits ≤
      ((-149 : Int) + Format.binary32.exponentBias +
        Format.binary32.mantissaBitsWithoutImplicit).toNat + 1 := by
    decide
  rw [pack]
  dsimp only
  rw [if_neg hfits, if_neg hlog]

theorem isNormal {mantissa : Nat} {exponent : Int} (hleast : 2 ^ 23 ≤ mantissa)
    (hmost : mantissa < 2 ^ 24) (hlow : -149 ≤ exponent) (hhigh : exponent ≤ 104) :
    IsNormal .binary32 mantissa exponent where
  least := hleast
  most := hmost
  low := hlow
  high := by
    change exponent + 127 + 23 + 1 < 2 ^ 8
    omega

theorem pack_normal (sign : Sign) {mantissa : Nat} {exponent : Int} (hpos : 0 < mantissa)
    (hnormal : IsNormal .binary32 mantissa exponent) :
    pack .binary32 (.finite sign mantissa exponent hpos) =
      packComponents .binary32 sign (BitVec.ofNat 8 (exponent + 150).toNat)
        (BitVec.ofNat 23 mantissa) := by
  have hbiased : biased .binary32 exponent = (exponent + 150).toNat :=
    congrArg Int.toNat (Int.add_assoc exponent 127 23)
  rw [hnormal.pack_eq, hbiased]

/-- The least exponent field is unpacked to the mantissa as it stands. -/
theorem unpack_subnormal (sign : Sign) {mantissa : Nat} (hpos : 0 < mantissa)
    (hmost : mantissa < 2 ^ 23) :
    unpack .binary32 (packComponents .binary32 sign 0#8 (BitVec.ofNat 23 mantissa)) =
      .finite sign mantissa (-149) hpos := by
  have hmantissa : (BitVec.ofNat 23 mantissa).toNat = mantissa := Nat.mod_eq_of_lt hmost
  have hne : BitVec.ofNat 23 mantissa ≠ 0#23 := by
    intro hzero
    rw [hzero] at hmantissa
    exact Nat.ne_of_lt hpos hmantissa
  rw [unpack]
  simp only [unpackExponent_packComponents, unpackMantissa_packComponents,
    unpackSign_packComponents, Sign.ofBitVec_toBitVec]
  rw [if_neg (by decide), if_pos trivial, dif_neg hne]
  simp only [hmantissa]
  rfl

/-- Parts that fit the format are what is taken apart again. -/
theorem unpack_pack {parts : UnpackedFloat} (hcanonical : Canonical parts) :
    unpack .binary32 (pack .binary32 parts) = parts := by
  cases parts with
  | notANumber => rfl
  | infinity sign => cases sign <;> rfl
  | zero sign => cases sign <;> rfl
  | finite sign mantissa exponent hpos =>
      obtain ⟨hmost, hlow, hhigh, hform⟩ := hcanonical
      by_cases hleast : 2 ^ 23 ≤ mantissa
      · exact (isNormal hleast hmost hlow hhigh).unpack_pack sign hpos
      · obtain rfl : exponent = -149 := hform.resolve_left hleast
        rw [pack_subnormal sign hpos (Nat.not_le.1 hleast)]
        exact unpack_subnormal sign hpos (Nat.not_le.1 hleast)

/-! ### Numbers -/

theorem canonical_parts (x : Float32) : Canonical x.toModel.unpack :=
  canonical_unpack _

/-- A number is made up of its parts. -/
theorem ofModel_pack_unpack (x : Float32) : Float32.ofModel (.pack x.toModel.unpack) = x := by
  obtain ⟨model⟩ := x
  obtain ⟨bits, hvalid⟩ := model
  have hbits := pack_unpack_of_valid hvalid
  change Float32.ofModel ⟨UInt32.ofBitVec (pack .binary32 (unpack .binary32 bits.toBitVec)), _⟩ = _
  simp only [hbits]

theorem unpack_ofModel_pack {parts : UnpackedFloat} (hcanonical : Canonical parts) :
    (Float32.ofModel (.pack parts)).toModel.unpack = parts :=
  unpack_pack hcanonical

/-! ### Signs -/

theorem unpack_neg (x : Float32) : (-x).toModel.unpack = x.toModel.unpack.neg := by
  have hcanonical : Canonical x.toModel.unpack.neg := by
    have hparts := canonical_parts x
    cases hunpack : x.toModel.unpack with
    | finite sign mantissa exponent hpos => rw [hunpack] at hparts; exact hparts
    | _ => trivial
  exact unpack_ofModel_pack hcanonical

theorem neg_neg (x : Float32) : -(-x) = x := by
  have htwice : x.toModel.unpack.neg.neg = x.toModel.unpack := by
    cases x.toModel.unpack with
    | notANumber => rfl
    | infinity sign => cases sign <;> rfl
    | zero sign => cases sign <;> rfl
    | finite sign mantissa exponent hpos => cases sign <;> rfl
  calc
    -(-x) = Float32.ofModel (.pack (-x).toModel.unpack.neg) := rfl
    _ = Float32.ofModel (.pack x.toModel.unpack) := by rw [unpack_neg, htwice]
    _ = x := ofModel_pack_unpack x

theorem isFinite_neg (x : Float32) : (-x).isFinite = x.isFinite := by
  change (-x).toModel.unpack.isFinite = x.toModel.unpack.isFinite
  rw [unpack_neg]
  cases x.toModel.unpack <;> rfl

theorem isNegative_neg {x : Float32} (hnegative : isNegative x = true) :
    isNegative (-x) = false := by
  have hturn : ∀ sign : Sign, (sign == .negative) = true → (-sign == .negative) = false := by
    intro sign hsign
    cases sign with
    | negative => rfl
    | positive => cases hsign
  rw [isNegative] at hnegative ⊢
  rw [unpack_neg]
  cases hunpack : x.toModel.unpack with
  | notANumber => rfl
  | infinity sign => rw [hunpack] at hnegative; exact hturn sign hnegative
  | zero sign => rw [hunpack] at hnegative; exact hturn sign hnegative
  | finite sign mantissa exponent hpos =>
      rw [hunpack] at hnegative
      exact hturn sign hnegative

/-- A number is finite unless it is one of the words for other numbers. -/
theorem isFinite_iff (x : Float32) : x.isFinite = true ↔ x.isNaN = false ∧ x.isInf = false := by
  change x.toModel.unpack.isFinite = true ↔
    x.toModel.unpack.isNaN = false ∧ x.toModel.unpack.isInf = false
  cases x.toModel.unpack <;> simp [isFinite, isNaN, isInf]

/-- A number without a sign is its own magnitude. -/
theorem abs_of_not_isNegative {x : Float32} (hsign : isNegative x = false) : x.abs = x := by
  have habs : x.toModel.unpack.abs = x.toModel.unpack := by
    rw [isNegative] at hsign
    cases hunpack : x.toModel.unpack with
    | notANumber => rfl
    | infinity sign =>
        rw [hunpack] at hsign
        cases sign <;> first | rfl | cases hsign
    | zero sign =>
        rw [hunpack] at hsign
        cases sign <;> first | rfl | cases hsign
    | finite sign mantissa exponent hpos =>
        rw [hunpack] at hsign
        cases sign <;> first | rfl | cases hsign
  calc
    x.abs = Float32.ofModel (.pack x.toModel.unpack.abs) := rfl
    _ = Float32.ofModel (.pack x.toModel.unpack) := by rw [habs]
    _ = x := ofModel_pack_unpack x

end MotionScript.Single
