import MotionScript.Proofs.Random.Samples
/-!
# How evenly samples select integers

The `2 ^ 24` samples of a generator are spread over the integers between two bounds in their order,
so an integer is selected by the samples between two multiples of a fraction.  As many samples fall
between them as the fraction has units, rounded down or up.  All this is said of exact numbers; in
double precision nothing is rounded as long as there are not more integers than samples.
-/

namespace MotionScript

open Float.Model (Format UnpackedFloat)
open Float.Model.UnpackedFloat
open MotionScript.Parts

namespace Dice

/-! ### Exact selection -/

/-- Exact numbers lose their fraction and are limited to 64 bits like those in double precision. -/
instance exactScale : Scale ℚ where
  ofInt64 n := n.toInt
  toInt64 x := Int64.ofIntClamp (if 0 ≤ x then ⌊x⌋ else ⌈x⌉)

/-- The part of the integers that a sample reaches is not all of them. -/
theorem part_lt {k count : Nat} (hk : k < 2 ^ 24) (hpos : 0 < count) :
    k * count / 2 ^ 24 < count :=
  Nat.div_lt_of_lt_mul (Nat.mul_lt_mul_of_pos_right hk hpos)

section Exact

variable {lower upper : Int64} {count : Nat}

/-- A part of the integers, without its fraction. -/
theorem toInt_toInt64_exact {k : Nat} (hk : k < 2 ^ 24) {n : Int64} (hn : n.toInt = count)
    (hpos : 0 < count) :
    (Scale.toInt64 ((k : ℚ) / 2 ^ 24 * Scale.ofInt64 n)).toInt = (k * count / 2 ^ 24 : Nat) := by
  have hquotient : (k : ℚ) / 2 ^ 24 * Scale.ofInt64 n = (k * count : Nat) / (2 ^ 24 : Nat) := by
    change (k : ℚ) / 2 ^ 24 * (n.toInt : ℚ) = _
    rw [hn]
    push_cast
    ring
  have hfloor : ⌊((k * count : Nat) / (2 ^ 24 : Nat) : ℚ)⌋ = (k * count / 2 ^ 24 : Nat) :=
    Rat.floor_natCast_div_natCast _ _
  have hless := part_lt hk hpos
  have hmost := n.toInt_le
  have hmin : Int64.minValue.toInt = -2 ^ 63 := rfl
  rw [hquotient]
  change (Int64.ofIntClamp (if _ then _ else _)).toInt = _
  rw [if_pos (by positivity), hfloor]
  exact Int64.toInt_ofIntClamp (by omega) (by omega)

/-- The `k`th sample selects the integer as far above the lower bound as its part of all of them
reaches. -/
theorem toInt_select_exact (hordered : lower.toInt ≤ upper.toInt)
    (hcount : upper.toInt - lower.toInt + 1 = count) (hspan : count ≤ Int64.maxValue.toInt)
    {k : Nat} (hk : k < 2 ^ 24) :
    (select lower upper ((k : ℚ) / 2 ^ 24)).toInt = lower.toInt + (k * count / 2 ^ 24 : Nat) := by
  have hwidth : (upper - lower + 1).toInt = count :=
    (toInt_span hordered (hcount.trans_le hspan)).trans hcount
  have hpos : 0 < count := by omega
  have hpart := toInt_toInt64_exact hk hwidth hpos
  have hless := part_lt hk hpos
  have hleast := lower.minValue_le_toInt
  have hmost := upper.toInt_le
  rw [select, toInt_add_of_isInt64 ⟨by omega, by omega⟩, hpart]

end Exact

/-! ### Shares -/

/-- Between one multiple and the next there are as many integers as the distance says, rounded down
or up. -/
theorem ceil_add_sub_ceil {x y : ℚ} (hx : 0 ≤ x) (hy : 0 ≤ y) :
    ⌈x + y⌉₊ - ⌈x⌉₊ = ⌊y⌋₊ ∨ ⌈x + y⌉₊ - ⌈x⌉₊ = ⌈y⌉₊ := by
  have hleast : ⌈x⌉₊ + ⌊y⌋₊ ≤ ⌈x + y⌉₊ := by
    rw [← Nat.ceil_add_natCast hx]
    gcongr
    exact Nat.floor_le hy
  have hmost : ⌈x + y⌉₊ ≤ ⌈x⌉₊ + ⌈y⌉₊ := Nat.ceil_add_le x y
  have hnear : ⌈y⌉₊ ≤ ⌊y⌋₊ + 1 := Nat.ceil_le_floor_add_one y
  omega

/-- The numbers below `n` whose multiple falls into a part of `n`. -/
theorem filter_mul_div_eq {n count : Nat} (hn : 0 < n) {part : Nat} (hpart : part < count) :
    {k ∈ Finset.range n | k * count / n = part} =
      Finset.Ico ⌈(part * n / count : ℚ)⌉₊ ⌈(part * n / count + n / count : ℚ)⌉₊ := by
  have hcount : (0 : ℚ) < count := Nat.cast_pos.2 (Nat.zero_lt_of_lt hpart)
  ext k
  rw [Finset.mem_filter, Finset.mem_range, Finset.mem_Ico, Nat.ceil_le, Nat.lt_ceil, ← add_div,
    div_le_iff₀ hcount, lt_div_iff₀ hcount, Nat.div_eq_iff hn]
  norm_cast
  have hparts : part * n + n ≤ n * count := by
    rw [← Nat.succ_mul, Nat.mul_comm n]
    exact Nat.mul_le_mul_right n hpart
  constructor
  · rintro ⟨-, hleast, hmost⟩
    omega
  · rintro ⟨hleast, hmost⟩
    exact ⟨Nat.lt_of_mul_lt_mul_right (hmost.trans_le hparts), hleast, by omega⟩

theorem card_share {n count : Nat} (hn : 0 < n) {part : Nat} (hpart : part < count) :
    {k ∈ Finset.range n | k * count / n = part}.card = ⌊(n / count : ℚ)⌋₊ ∨
      {k ∈ Finset.range n | k * count / n = part}.card = ⌈(n / count : ℚ)⌉₊ := by
  rw [filter_mul_div_eq hn hpart, Nat.card_Ico]
  exact ceil_add_sub_ceil (by positivity) (by positivity)

/-- If there are not more parts than numbers, no part goes without. -/
theorem exists_share {n count : Nat} (hcount : count ≤ n) {part : Nat} (hpart : part < count) :
    ∃ k < n, k * count / n = part := by
  have hpos : (0 : ℚ) < count := Nat.cast_pos.2 (Nat.zero_lt_of_lt hpart)
  have hfloor : 0 < ⌊(n / count : ℚ)⌋₊ := by
    rw [Nat.floor_pos, one_le_div₀ hpos]
    exact_mod_cast hcount
  have hceil : ⌊(n / count : ℚ)⌋₊ ≤ ⌈(n / count : ℚ)⌉₊ := Nat.floor_le_ceil _
  have hcard : 0 < {k ∈ Finset.range n | k * count / n = part}.card := by
    have hshare := card_share (hpart.trans_le hcount |>.pos) hpart
    omega
  obtain ⟨k, hk⟩ := Finset.card_pos.1 hcard
  rw [Finset.mem_filter, Finset.mem_range] at hk
  exact ⟨k, hk⟩

/-! ### In double precision -/

/-- Integers that a mantissa of double precision has the length for, and their fractions. -/
theorem fits_binary64 {n : Nat} {exponent : Int} (hpos : 0 < n) (hshort : n < 2 ^ 53)
    (hlow : -900 ≤ exponent) (hhigh : exponent ≤ 900) : Fits .binary64 n exponent := by
  have hlog := (Nat.log2_lt (Nat.ne_of_gt hpos)).2 hshort
  refine ⟨hpos, hshort, ?_, ?_⟩
  · change (-1074 : Int) + 52 ≤ _
    omega
  · change _ + ((1023 : Nat) : Int) + 1 < 2 ^ 11
    omega

/-- A single precision number keeps its value when it is widened. -/
theorem unpack_widen_exact {x : Float32} {n : Nat} {exponent : Int}
    {hfits : Fits .binary32 n exponent} (hparts : x.toModel.unpack = hfits.parts)
    (hfits' : Fits .binary64 n exponent) : (Single.widen x).toModel.unpack = hfits'.parts := by
  change unpack .binary64 (pack .binary64 (Single.fit .binary64 x.toModel.unpack)) = _
  rw [hparts, Fits.parts, Single.fit, hfits'.round_shiftLeft, hfits'.unpack_pack]

/-- An integer that fits the mantissa is converted without rounding. -/
theorem unpack_ofInt64_exact {n : Int64} {count : Nat} (hn : n.toInt = count)
    (hfits : Fits .binary64 count 0) :
    (Scale.ofInt64 n : Float).toModel.unpack = hfits.parts := by
  change unpack .binary64 (pack .binary64 (UnpackedFloat.ofInt .binary64 n.toInt)) = _
  rw [hn]
  change unpack .binary64 (pack .binary64 (UnpackedFloat.ofNat .binary64 count)) = _
  rw [ofNat_eq_parts hfits, hfits.unpack_pack]

/-- The product of a sample and a number of integers is not rounded. -/
theorem unpack_scaled {k count : Nat} {n : Int64} (hk : k < 2 ^ 24) (hkpos : 0 < k)
    (hn : n.toInt = count) (hwidth : Fits .binary64 count 0)
    (hfits : Fits .binary64 (k * count) (-24)) :
    (Single.widen (Random.unitFraction k) * Scale.ofInt64 n).toModel.unpack = hfits.parts := by
  have hsample : Fits .binary32 k (-24) := Single.fits hkpos hk (by decide) (by decide)
  have hwidened : Fits .binary64 k (-24) :=
    fits_binary64 hkpos (by omega) (by decide) (by decide)
  have hleft := unpack_widen_exact (Random.unpack_unitFraction hsample) hwidened
  have hright := unpack_ofInt64_exact hn hwidth
  change unpack .binary64 (pack .binary64 (UnpackedFloat.mul .binary64
    (Single.widen (Random.unitFraction k)).toModel.unpack
    (Scale.ofInt64 n : Float).toModel.unpack)) = _
  rw [hleft, hright, mul_eq_parts hwidened hwidth rfl rfl hfits, hfits.unpack_pack]

/-- In double precision a sample reaches as far as in exact numbers. -/
theorem toInt_toInt64_widen {k : Nat} (hk : k < 2 ^ 24) {n : Int64} {count : Nat}
    (hn : n.toInt = count) (hpos : 0 < count) (hcount : count ≤ 2 ^ 24) :
    (Scale.toInt64 (Single.widen (Random.unitFraction k) * Scale.ofInt64 n)).toInt =
      (k * count / 2 ^ 24 : Nat) := by
  have hwidth : Fits .binary64 count 0 := fits_binary64 hpos (by omega) (by decide) (by decide)
  obtain rfl | hkpos := Nat.eq_zero_or_pos k
  · have hzero : (Random.unitFraction 0).toModel.unpack = .zero .positive := rfl
    rw [Nat.zero_mul, Nat.zero_div]
    exact toInt_toInt64_mul_of_zero hzero (unpack_ofInt64_exact hn hwidth)
  · have hshort : k * count < 2 ^ 53 :=
      (Nat.mul_lt_mul_of_lt_of_le hk hcount (by decide)).trans (by decide)
    have hfits : Fits .binary64 (k * count) (-24) :=
      fits_binary64 (Nat.mul_pos hkpos hpos) hshort (by decide) (by decide)
    have hproduct := unpack_scaled hk hkpos hn hwidth hfits
    have hvalue : weight ((k * count) <<< room .binary64 (k * count))
        (-24 - room .binary64 (k * count)) = (k * count : Nat) / (2 ^ 24 : Nat) := by
      rw [weight_shiftLeft, Random.weight_unit]
      norm_cast
    have hfloor : ⌊((k * count : Nat) / (2 ^ 24 : Nat) : ℚ)⌋ = (k * count / 2 ^ 24 : Nat) :=
      Rat.floor_natCast_div_natCast _ _
    have hbelow : ((k * count : Nat) / (2 ^ 24 : Nat) : ℚ) < Int64.maxValue.toInt := by
      rw [div_lt_iff₀ (by norm_num)]
      have hmax : Int64.maxValue.toInt = 2 ^ 63 - 1 := rfl
      rw [hmax]
      exact_mod_cast (by omega : ((k * count : Nat) : Int) < (2 ^ 63 - 1) * 2 ^ 24)
    rw [toInt_toInt64 hproduct (hvalue ▸ hbelow), hvalue, hfloor]

/-- As long as there are not more integers than samples, the sample selects in double precision what
it selects in exact numbers. -/
theorem integer_eq_select {lower upper : Int64} {count : Nat}
    (hordered : lower.toInt ≤ upper.toInt) (hcount : upper.toInt - lower.toInt + 1 = count)
    (hfew : count ≤ 2 ^ 24) {k : Nat} (hk : k < 2 ^ 24) :
    integer lower upper (Random.unitFraction k) = select lower upper ((k : ℚ) / 2 ^ 24) := by
  have hmax : Int64.maxValue.toInt = 2 ^ 63 - 1 := rfl
  have hwidth : (upper - lower + 1).toInt = count :=
    (toInt_span hordered (by omega)).trans hcount
  have hpos : 0 < count := by omega
  have hpart : Scale.toInt64 (Single.widen (Random.unitFraction k) *
      Scale.ofInt64 (upper - lower + 1)) =
        Scale.toInt64 ((k : ℚ) / 2 ^ 24 * Scale.ofInt64 (upper - lower + 1)) := by
    rw [← Int64.toInt_inj, toInt_toInt64_widen hk hwidth hpos hfew,
      toInt_toInt64_exact hk hwidth hpos]
  rw [integer, select, hpart, select]

end Dice

open Dice (integer select)

/-- Between bounds in order that span at most as many integers as 64 bits count, every sample
selects an integer within the bounds, a later sample none that is less.  If there are not more
integers than samples, every integer is selected, and by as many of the `2 ^ 24` samples as are its
share, rounded down or up; and then the selection in double precision is that in exact numbers. -/
theorem select_nearly_uniform {lower upper : Int64} {count : Nat}
    (hordered : lower.toInt ≤ upper.toInt) (hcount : upper.toInt - lower.toInt + 1 = count)
    (hspan : count ≤ Int64.maxValue.toInt) :
    let selected (k : Nat) := (select lower upper ((k : ℚ) / 2 ^ 24)).toInt
    (∀ k < 2 ^ 24, lower.toInt ≤ selected k ∧ selected k ≤ upper.toInt) ∧
      MonotoneOn selected (Set.Iio (2 ^ 24)) ∧
      (count ≤ 2 ^ 24 →
        (∀ n, lower.toInt ≤ n → n ≤ upper.toInt →
          (∃ k < 2 ^ 24, selected k = n) ∧
            ({k ∈ Finset.range (2 ^ 24) | selected k = n}.card = ⌊(2 ^ 24 / count : ℚ)⌋₊ ∨
              {k ∈ Finset.range (2 ^ 24) | selected k = n}.card = ⌈(2 ^ 24 / count : ℚ)⌉₊)) ∧
          ∀ k < 2 ^ 24, integer lower upper (Random.unitFraction k) =
            select lower upper ((k : ℚ) / 2 ^ 24)) := by
  intro selected
  have hpos : 0 < count := by omega
  have hselected {k : Nat} (hk : k < 2 ^ 24) :
      selected k = lower.toInt + (k * count / 2 ^ 24 : Nat) :=
    Dice.toInt_select_exact hordered hcount hspan hk
  refine ⟨fun k hk => ?_, fun k hk later hlater hle => ?_,
    fun hfew => ⟨fun n hleast hmost => ?_, ?_⟩⟩
  · have hless := Dice.part_lt hk hpos
    rw [hselected hk]
    omega
  · have hpart : k * count / 2 ^ 24 ≤ later * count / 2 ^ 24 :=
      Nat.div_le_div_right (Nat.mul_le_mul_right count hle)
    rw [hselected hk, hselected hlater]
    omega
  · obtain ⟨part, rfl⟩ : ∃ part : Nat, n = lower.toInt + part := ⟨(n - lower.toInt).toNat, by omega⟩
    have hpart : part < count := by omega
    have hiff {k : Nat} (hk : k < 2 ^ 24) :
        selected k = lower.toInt + part ↔ k * count / 2 ^ 24 = part := by
      rw [hselected hk]
      omega
    obtain ⟨k, hk, hshare⟩ := Dice.exists_share hfew hpart
    refine ⟨⟨k, hk, (hiff hk).2 hshare⟩, ?_⟩
    rw [Finset.filter_congr fun k hk => hiff (Finset.mem_range.1 hk)]
    exact_mod_cast Dice.card_share (Nat.two_pow_pos 24) hpart
  · exact fun k hk => Dice.integer_eq_select hordered hcount hfew hk

/-- Seven integers on either side of zero, each of them with a seventh of the samples. -/
theorem select_nearly_uniform_seven :
    let selected (k : Nat) := (select (-3) 3 ((k : ℚ) / 2 ^ 24)).toInt
    ((-3 : Int64).toInt ≤ (3 : Int64).toInt ∧
        (3 : Int64).toInt - (-3 : Int64).toInt + 1 = (7 : Nat) ∧
        (7 : Nat) ≤ Int64.maxValue.toInt ∧ 7 ≤ 2 ^ 24) ∧
      (∀ k < 2 ^ 24, -3 ≤ selected k ∧ selected k ≤ 3) ∧
      MonotoneOn selected (Set.Iio (2 ^ 24)) ∧
      (∃ k < 2 ^ 24, selected k = -1) ∧
      ({k ∈ Finset.range (2 ^ 24) | selected k = -1}.card = 2396745 ∨
        {k ∈ Finset.range (2 ^ 24) | selected k = -1}.card = 2396746) ∧
      integer (-3) 3 (Random.unitFraction 7654321) =
        select (-3) 3 (((7654321 : Nat) : ℚ) / 2 ^ 24) := by
  intro selected
  have hhypotheses : (-3 : Int64).toInt ≤ (3 : Int64).toInt ∧
      (3 : Int64).toInt - (-3 : Int64).toInt + 1 = (7 : Nat) ∧
      (7 : Nat) ≤ Int64.maxValue.toInt ∧ 7 ≤ 2 ^ 24 := by
    decide
  obtain ⟨hordered, hcount, hspan, hfew⟩ := hhypotheses
  obtain ⟨hbounds, hmonotone, hshares⟩ := select_nearly_uniform hordered hcount hspan
  obtain ⟨hshare, hdouble⟩ := hshares hfew
  obtain ⟨hselected, hcard⟩ := hshare (-1) (by decide) (by decide)
  have hfloor : ⌊(2 ^ 24 / (7 : Nat) : ℚ)⌋₊ = 2396745 := by norm_num
  have hceil : ⌈(2 ^ 24 / (7 : Nat) : ℚ)⌉₊ = 2396746 := by norm_num
  rw [hfloor, hceil] at hcard
  exact ⟨⟨hordered, hcount, hspan, hfew⟩, hbounds, hmonotone, hselected, hcard,
    hdouble 7654321 (by decide)⟩

end MotionScript
