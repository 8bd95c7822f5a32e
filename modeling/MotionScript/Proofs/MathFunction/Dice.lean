import MotionScript.Environment
import MotionScript.Proofs.MathFunction.Selection
import MotionScript.Proofs.Number.Value
/-!
# Sums of dice

A call draws as many samples as its first argument says, but at most 1024, and adds up in 64 bits
what they select.  Every die is within the bounds.  As long as the least and the greatest total of
so many dice are within 64 bits, no partial sum leaves them, and the result is the sum of the dice.
Beyond that a call that is checked ends at the first partial sum that overflows, with no result.
-/

namespace MotionScript

open Float.Model (Format UnpackedFloat)
open Float.Model.UnpackedFloat
open MotionScript.Parts

namespace Dice

/-! ### The number of samples -/

/-- A clamped integer is the nearest one that fits. -/
theorem toInt_ofIntClamp (n : Int) :
    (Int32.ofIntClamp n).toInt = max Int32.minValue.toInt (min n Int32.maxValue.toInt) := by
  have hbounds : Int32.minValue.toInt ≤ Int32.maxValue.toInt := by decide
  rw [Int32.ofIntClamp]
  split
  · split
    · rw [Int32.toInt_ofIntLE]
      omega
    · omega
  · omega

/-- Within 32 bits or not, the integer part is limited to what a call draws at most. -/
theorem count_eq (n : Float32) :
    count n = (min (max (UnpackedFloat.toInt Int32.minValue.toInt Int32.maxValue.toInt
      n.toModel.unpack) 0) 1024).toNat := by
  have hmin : Int32.minValue.toInt = -2 ^ 31 := rfl
  have hmax : Int32.maxValue.toInt = 2 ^ 31 - 1 := rfl
  change (min (max (Int32.ofIntClamp (UnpackedFloat.toInt _ _ n.toModel.unpack)).toInt 0)
    1024).toNat = _
  rw [toInt_ofIntClamp]
  omega

theorem count_of_isNaN {n : Float32} (hnan : n.isNaN = true) : count n = 0 := by
  have hparts : n.toModel.unpack = .notANumber := by
    change n.toModel.unpack.isNaN = true at hnan
    cases hunpack : n.toModel.unpack <;> rw [hunpack] at hnan <;> first | rfl | cases hnan
  rw [count_eq, hparts]
  rfl

theorem count_of_isInf {n : Float32} (hinf : n.isInf = true) :
    count n = if Single.isNegative n then 0 else 1024 := by
  change n.toModel.unpack.isInf = true at hinf
  rw [count_eq, Single.isNegative]
  cases hunpack : n.toModel.unpack with
  | infinity sign => cases sign <;> rfl
  | _ => rw [hunpack] at hinf; cases hinf

/-- A finite number loses its fraction; what is negative counts as none. -/
theorem count_of_isFinite {n : Float32} (hfinite : n.isFinite = true) :
    count n = min ⌊Single.toRat n⌋₊ 1024 := by
  change n.toModel.unpack.isFinite = true at hfinite
  rw [count_eq, Single.toRat]
  cases hunpack : n.toModel.unpack with
  | notANumber => rw [hunpack] at hfinite; cases hfinite
  | infinity sign => rw [hunpack] at hfinite; cases hfinite
  | zero sign => simp [UnpackedFloat.toInt]
  | finite sign mantissa exponent hpos =>
      have hweight := weight_pos hpos exponent
      have hnonneg : 0 ≤ ⌊weight mantissa exponent⌋ := Int.floor_nonneg.2 hweight.le
      rw [UnpackedFloat.toInt, roundToInt_eq]
      cases sign with
      | positive =>
          dsimp only [Sign.apply]
          rw [← Int.floor_toNat]
          omega
      | negative =>
          dsimp only [Sign.apply]
          rw [Nat.floor_of_nonpos (neg_nonpos.2 hweight.le)]
          omega

/-! ### Partial sums -/

/-- Hands out samples in their order; the state is how many were drawn. -/
def drawFrom (samples : Nat → Float32) : StateM Nat Float32 := do
  let drawn ← get
  set (drawn + 1)
  return samples drawn

/-- Between bounds that span at most as many integers as 64 bits count, no step of a selection
overflows. -/
theorem selectsInt64_of_span {lower upper : Int64} (hordered : lower.toInt ≤ upper.toInt)
    (hspan : upper.toInt - lower.toInt + 1 ≤ Int64.maxValue.toInt) {sample : Float32}
    (hlow : 0 ≤ sample) (hhigh : sample < 1) :
    SelectsInt64 lower upper (Single.widen sample) := by
  have hcount := toInt_span hordered hspan
  have hdifference := toInt_difference hordered hspan
  obtain ⟨hnonneg, hbelow⟩ := scaled_bounds hlow hhigh (show 0 < (upper - lower + 1).toInt by omega)
  have hleast := lower.minValue_le_toInt
  have hmost := upper.toInt_le
  have hmin : Int64.minValue.toInt ≤ 0 := by decide
  exact ⟨⟨by omega, by omega⟩, ⟨by omega, by omega⟩, ⟨by omega, by omega⟩⟩

/-- A bound that holds for all rolls holds for fewer. -/
theorem fewer_bounds {least greatest low high : Int} {fewer rolls : Nat} (hfewer : fewer ≤ rolls)
    (hleast : least ≤ 0) (hgreatest : 0 ≤ greatest) (hlow : least ≤ rolls * low)
    (hhigh : rolls * high ≤ greatest) : least ≤ fewer * low ∧ fewer * high ≤ greatest := by
  have hcast : (fewer : Int) ≤ rolls := Int.ofNat_le.2 hfewer
  constructor
  · rcases le_total 0 low with hsign | hsign
    · exact hleast.trans (by positivity)
    · exact hlow.trans (mul_le_mul_of_nonpos_right hcast hsign)
  · rcases le_total 0 high with hsign | hsign
    · exact (mul_le_mul_of_nonneg_right hcast hsign).trans hhigh
    · exact (mul_nonpos_of_nonneg_of_nonpos (Int.natCast_nonneg fewer) hsign).trans hgreatest

section Roll

variable (samples : Nat → Float32) (lower upper : Int64)

/-- The exact sum of the first dice. -/
def total (rolls : Nat) : Int :=
  ∑ i ∈ Finset.range rolls, (integer lower upper (samples i)).toInt

theorem total_succ (rolls : Nat) :
    total samples lower upper (rolls + 1) =
      total samples lower upper rolls + (integer lower upper (samples rolls)).toInt :=
  Finset.sum_range_succ _ rolls

/-- Checked rolls on the samples of a source: how they end, and how many samples are drawn then. -/
def checkedRolls (rolls : Nat) (sum : Int64) (drawn : Nat) : Except Fault Int64 × Nat :=
  (roll (ExceptT.lift (drawFrom samples) : Checked (StateM Nat) Float32)
    (addInteger (throw .overflow) lower upper) rolls sum).run.run drawn

variable {samples lower upper}

/-- A roll goes on with the next die added, or ends in an overflow. -/
theorem checkedRolls_succ (hselect : ∀ i, SelectsInt64 lower upper (Single.widen (samples i)))
    (rolls : Nat) (sum : Int64) (drawn : Nat) :
    checkedRolls samples lower upper (rolls + 1) sum drawn =
      if IsInt64 (sum.toInt + (integer lower upper (samples drawn)).toInt) then
        checkedRolls samples lower upper rolls (sum + integer lower upper (samples drawn))
          (drawn + 1)
      else (.error .overflow, drawn + 1) := by
  have hdie : checkedInteger (throw Fault.overflow : Checked (StateM Nat) Unit) lower upper
      (samples drawn) = pure (integer lower upper (samples drawn)) := by
    rw [checkedInteger, check, if_pos (hselect drawn)]
    rfl
  have hadd : addInteger (throw Fault.overflow : Checked (StateM Nat) Unit) lower upper sum
      (samples drawn) =
        if IsInt64 (sum.toInt + (integer lower upper (samples drawn)).toInt) then
          pure (sum + integer lower upper (samples drawn))
        else throw .overflow := by
    rw [addInteger, hdie, pure_bind, check]
    split <;> rfl
  change (addInteger (throw Fault.overflow : Checked (StateM Nat) Unit) lower upper sum
    (samples drawn) >>= fun sum => roll _ _ rolls sum).run.run (drawn + 1) = _
  rw [hadd]
  split <;> rfl

/-- Rolls end with the sum of the dice as long as all partial sums are within 64 bits. -/
theorem checkedRolls_of_isInt64 (hselect : ∀ i, SelectsInt64 lower upper (Single.widen (samples i)))
    {rolls drawn : Nat} {sum : Int64} (hsum : sum.toInt = total samples lower upper drawn)
    (hwithin : ∀ rolled ≤ rolls, IsInt64 (total samples lower upper (drawn + rolled))) :
    checkedRolls samples lower upper rolls sum drawn =
      (.ok (.ofInt (total samples lower upper (drawn + rolls))), drawn + rolls) := by
  induction rolls generalizing sum drawn with
  | zero =>
      rw [Nat.add_zero, ← hsum, Int64.ofInt_toInt]
      rfl
  | succ rolls ih =>
      have hnext : IsInt64 (sum.toInt + (integer lower upper (samples drawn)).toInt) := by
        rw [hsum, ← total_succ]
        exact hwithin 1 (Nat.le_add_left 1 rolls)
      have hshift (n : Nat) : drawn + (n + 1) = drawn + 1 + n := by omega
      rw [checkedRolls_succ hselect, if_pos hnext, hshift rolls]
      apply ih
      · rw [toInt_add_of_isInt64 hnext, hsum, ← total_succ]
      · intro rolled hrolled
        rw [← hshift]
        exact hwithin (rolled + 1) (Nat.succ_le_succ hrolled)

/-- Rolls end at the first partial sum that is not within 64 bits. -/
theorem checkedRolls_of_not_isInt64
    (hselect : ∀ i, SelectsInt64 lower upper (Single.widen (samples i)))
    {rolls rolled drawn : Nat} {sum : Int64} (hsum : sum.toInt = total samples lower upper drawn)
    (hrolled : rolled ≤ rolls)
    (hfewer : ∀ fewer < rolled, IsInt64 (total samples lower upper (drawn + fewer)))
    (hwithin : ¬ IsInt64 (total samples lower upper (drawn + rolled))) :
    checkedRolls samples lower upper rolls sum drawn = (.error .overflow, drawn + rolled) := by
  induction rolls generalizing sum drawn rolled with
  | zero =>
      obtain rfl : rolled = 0 := Nat.le_zero.1 hrolled
      rw [Nat.add_zero, ← hsum] at hwithin
      exact absurd ⟨sum.minValue_le_toInt, sum.toInt_le⟩ hwithin
  | succ rolls ih =>
      cases rolled with
      | zero =>
          rw [Nat.add_zero, ← hsum] at hwithin
          exact absurd ⟨sum.minValue_le_toInt, sum.toInt_le⟩ hwithin
      | succ rolled =>
          rw [checkedRolls_succ hselect, hsum, ← total_succ]
          cases rolled with
          | zero => rw [if_neg hwithin]
          | succ rolled =>
              have hnext : IsInt64 (total samples lower upper (drawn + 1)) := hfewer 1 (by omega)
              have hshift (n : Nat) : drawn + (n + 1) = drawn + 1 + n := by omega
              rw [if_pos hnext, hshift (rolled + 1)]
              apply ih
              · rw [total_succ, ← hsum] at hnext
                rw [toInt_add_of_isInt64 hnext, hsum, ← total_succ]
              · omega
              · intro fewer hless
                rw [← hshift]
                exact hfewer (fewer + 1) (by omega)
              · rw [← hshift]
                exact hwithin

/-- Where nothing is told of an overflow, every sample is drawn and the sum wraps around. -/
theorem run_roll {rolls drawn : Nat} {sum : Int64}
    (hsum : sum = .ofInt (total samples lower upper drawn)) :
    (roll (drawFrom samples) (addInteger (pure ()) lower upper) rolls sum).run drawn =
      (.ofInt (total samples lower upper (drawn + rolls)), drawn + rolls) := by
  induction rolls generalizing drawn sum with
  | zero => rw [hsum]; rfl
  | succ rolls ih =>
      have hadd : addInteger (pure () : StateM Nat Unit) lower upper sum (samples drawn) =
          pure (sum + integer lower upper (samples drawn)) := by
        simp [addInteger, checkedInteger, check]
      have hnext : sum + integer lower upper (samples drawn) =
          .ofInt (total samples lower upper (drawn + 1)) := by
        rw [total_succ, Int64.ofInt_add, Int64.ofInt_toInt, hsum]
      change (addInteger (pure () : StateM Nat Unit) lower upper sum (samples drawn) >>= fun sum =>
        roll _ _ rolls sum).run (drawn + 1) = _
      rw [hadd, pure_bind, ih hnext, Nat.add_assoc, Nat.add_comm 1]

section Bounds

variable {low high : Int} (hdie : ∀ i, low ≤ (integer lower upper (samples i)).toInt ∧
  (integer lower upper (samples i)).toInt ≤ high)
include hdie

/-- A sum of rolls lies between as many least and as many greatest rolls. -/
theorem total_bounds (rolls : Nat) :
    rolls * low ≤ total samples lower upper rolls ∧
      total samples lower upper rolls ≤ rolls * high := by
  have hleast := Finset.card_nsmul_le_sum (Finset.range rolls) _ low fun i _ => (hdie i).1
  have hmost := Finset.sum_le_card_nsmul (Finset.range rolls) _ high fun i _ => (hdie i).2
  rw [Finset.card_range, nsmul_eq_mul] at hleast hmost
  exact ⟨hleast, hmost⟩

/-- Where the extreme totals are within 64 bits, so is every partial sum. -/
theorem isInt64_total {rolls : Nat} (hlow : Int64.minValue.toInt ≤ rolls * low)
    (hhigh : rolls * high ≤ Int64.maxValue.toInt) {rolled : Nat} (hrolled : rolled ≤ rolls) :
    IsInt64 (total samples lower upper rolled) := by
  obtain ⟨hlow', hhigh'⟩ := fewer_bounds hrolled (by decide) (by decide) hlow hhigh
  obtain ⟨hleast, hmost⟩ := total_bounds hdie rolled
  exact ⟨hlow'.trans hleast, hmost.trans hhigh'⟩

end Bounds

end Roll

end Dice

open Dice (IsInt64 checkedRolls count drawFrom integer total)

/-- A checked call on the samples of a source: how it ends, and how many samples are drawn then. -/
def checkedDice (samples : Nat → Float32) (arguments : List Float32) : Except Fault Float32 × Nat :=
  let sample : Checked (StateM Nat) Float32 := ExceptT.lift (drawFrom samples)
  (MathFunction.dieRollInteger.apply sample (throw .overflow) arguments).run.run 0

/-- Integer dice are rolled one after the other, and the value is the nearest number to their
sum. -/
theorem MathFunction.apply_dieRollInteger {m : Type → Type} [Monad m] (sample : m Float32)
    (overflow : m Unit) (arguments : List Float32) :
    MathFunction.dieRollInteger.apply sample overflow arguments = do
      let add := Dice.addInteger overflow (Single.toInt64 (argument arguments 1))
        (Single.toInt64 (argument arguments 2))
      return Single.ofInt64 (← Dice.roll sample add (count (argument arguments 0)) 0) := rfl

section Call

open MathFunction (argument)

variable (samples : Nat → Float32) (arguments : List Float32)

/-- A call whose arithmetic is not checked draws all its samples, and its sum wraps around. -/
theorem run_dieRollInteger :
    (MathFunction.dieRollInteger.apply (drawFrom samples) (pure ()) arguments).run 0 =
      (Single.ofInt64 (.ofInt (total samples (Single.toInt64 (argument arguments 1))
        (Single.toInt64 (argument arguments 2)) (count (argument arguments 0)))),
        count (argument arguments 0)) := by
  have hzero : (0 : Int64) = .ofInt (total samples (Single.toInt64 (argument arguments 1))
      (Single.toInt64 (argument arguments 2)) 0) := rfl
  rw [MathFunction.apply_dieRollInteger, StateT.run_bind, Dice.run_roll hzero, Nat.zero_add]
  rfl

variable {samples arguments}

/-- A checked call ends as its rolls do. -/
theorem checkedDice_eq {ended : Except Fault Int64} {drawn : Nat}
    (hrolls : checkedRolls samples (Single.toInt64 (argument arguments 1))
      (Single.toInt64 (argument arguments 2)) (count (argument arguments 0)) 0 0 =
        (ended, drawn)) :
    checkedDice samples arguments = (ended.map Single.ofInt64, drawn) := by
  rw [checkedRolls] at hrolls
  rw [checkedDice, MathFunction.apply_dieRollInteger, ExceptT.run_bind, StateT.run_bind, hrolls]
  cases ended <;> rfl

end Call

/-- For every source of samples of the unit interval, a call rolls as many dice as its first
argument says: none if this is not a number, and otherwise its integer part, limited to 0 and 1024.
If nothing is told of overflows, it draws one sample for each die and its sum wraps around.

Where the bounds are in order and span at most as many integers as 64 bits count, every die is
within the bounds.  A checked call then ends with the sum of the dice if all partial sums are within
64 bits, and otherwise in a fault at the first that is not.  They all are if the least and the
greatest total are. -/
theorem dieRollInteger_sums_dice (samples : Nat → Float32) (arguments : List Float32)
    (hsamples : ∀ i, 0 ≤ samples i ∧ samples i < 1) :
    let n := MathFunction.argument arguments 0
    let low := Single.toInt64 (MathFunction.argument arguments 1)
    let high := Single.toInt64 (MathFunction.argument arguments 2)
    let die i := (integer low high (samples i)).toInt
    let sum := total samples low high
    ((n.isNaN = true → count n = 0) ∧
        (n.isInf = true → count n = if Single.isNegative n then 0 else 1024) ∧
        (n.isFinite = true → count n = min ⌊Single.toRat n⌋₊ 1024)) ∧
      (MathFunction.dieRollInteger.apply (drawFrom samples) (pure ()) arguments).run 0 =
        (Single.ofInt64 (.ofInt (sum (count n))), count n) ∧
      (low.toInt ≤ high.toInt → high.toInt - low.toInt + 1 ≤ Int64.maxValue.toInt →
        (∀ i, low.toInt ≤ die i ∧ die i ≤ high.toInt) ∧
        (count n * low.toInt ≤ sum (count n) ∧ sum (count n) ≤ count n * high.toInt) ∧
        ((∀ rolled ≤ count n, IsInt64 (sum rolled)) →
          checkedDice samples arguments =
            (.ok (Single.ofInt64 (.ofInt (sum (count n)))), count n)) ∧
        (∀ rolled ≤ count n, (∀ fewer < rolled, IsInt64 (sum fewer)) → ¬ IsInt64 (sum rolled) →
          checkedDice samples arguments = (.error .overflow, rolled)) ∧
        (Int64.minValue.toInt ≤ count n * low.toInt →
          count n * high.toInt ≤ Int64.maxValue.toInt →
          ∀ rolled ≤ count n, IsInt64 (sum rolled))) := by
  intro n low high die sum
  refine ⟨⟨Dice.count_of_isNaN, Dice.count_of_isInf, Dice.count_of_isFinite⟩, ?_,
    fun hordered hspan => ?_⟩
  · exact run_dieRollInteger samples arguments
  · have hdie (i : Nat) := Dice.integer_bounds hordered hspan (hsamples i).1 (hsamples i).2
    have hselect (i : Nat) := Dice.selectsInt64_of_span hordered hspan (hsamples i).1 (hsamples i).2
    have hzero : (0 : Int64).toInt = total samples low high 0 := rfl
    refine ⟨hdie, Dice.total_bounds hdie (count n), fun hwithin => ?_,
      fun rolled hrolled hfewer hwithin => ?_, fun hlow hhigh rolled hrolled => ?_⟩
    · have hrolls := Dice.checkedRolls_of_isInt64 hselect hzero
        (by simpa only [Nat.zero_add] using hwithin)
      rw [Nat.zero_add] at hrolls
      exact checkedDice_eq hrolls
    · have hrolls := Dice.checkedRolls_of_not_isInt64 hselect hzero hrolled
        (by simpa only [Nat.zero_add] using hfewer) (by simpa only [Nat.zero_add] using hwithin)
      rw [Nat.zero_add] at hrolls
      exact checkedDice_eq hrolls
    · exact Dice.isInt64_total hdie hlow hhigh hrolled

/-- Three dice between minus two and three; half a die more is not rolled. -/
theorem dieRollInteger_sums_dice_three :
    let samples : Nat → Float32 := fun i => if i = 1 then 0 else 0.999
    let low := Single.toInt64 (-2)
    let high := Single.toInt64 3
    ((∀ i, 0 ≤ samples i ∧ samples i < 1) ∧ low.toInt = -2 ∧ high.toInt = 3 ∧ count 3.5 = 3) ∧
      total samples low high 3 = 4 ∧
      (MathFunction.dieRollInteger.apply (drawFrom samples) (pure ()) [3.5, -2, 3]).run 0 =
        (Single.ofInt64 4, 3) ∧
      checkedDice samples [3.5, -2, 3] = (.ok (Single.ofInt64 4), 3) := by
  intro samples low high
  have hsamples : ∀ i, 0 ≤ samples i ∧ samples i < 1 := by
    intro i
    simp only [samples]
    split <;> decide +kernel
  have hlow : low.toInt = -2 := by decide +kernel
  have hhigh : high.toInt = 3 := by decide +kernel
  have hcount : count 3.5 = 3 := by decide +kernel
  have hsum : total samples low high 3 = 4 := by decide +kernel
  obtain ⟨-, hrun, hchecked⟩ := dieRollInteger_sums_dice samples [3.5, -2, 3] hsamples
  change _ = (Single.ofInt64 (.ofInt (total samples low high (count 3.5))), count 3.5) at hrun
  rw [hcount, hsum] at hrun
  obtain ⟨-, -, hends, -, hwithin⟩ := hchecked (by decide +kernel) (by decide +kernel)
  have hended := hends (hwithin (by decide +kernel) (by decide +kernel))
  change checkedDice samples [3.5, -2, 3] =
    (.ok (Single.ofInt64 (.ofInt (total samples low high (count 3.5)))), count 3.5) at hended
  rw [hcount, hsum] at hended
  exact ⟨⟨hsamples, hlow, hhigh, hcount⟩, hsum, hrun, hended⟩

/-- Two dice that can only show `2 ^ 62` leave 64 bits when they are added up: a call that is
checked has no result, although both dice are within their bounds. -/
theorem dieRollInteger_overflows :
    let samples : Nat → Float32 := fun _ => 0.5
    let bound : Float32 := 4611686018427387904
    let low := Single.toInt64 bound
    (∀ i, 0 ≤ samples i ∧ samples i < 1) ∧ low.toInt = 2 ^ 62 ∧
      low.toInt - low.toInt + 1 ≤ Int64.maxValue.toInt ∧ count 2 = 2 ∧
      integer low low 0.5 = low ∧ ¬ IsInt64 (low.toInt + low.toInt) ∧
      checkedDice samples [2, bound, bound] = (.error .overflow, 2) := by
  intro samples bound low
  have hlow : low.toInt = 2 ^ 62 := by decide +kernel
  refine ⟨fun _ => by decide +kernel, hlow, ?_, by decide +kernel, by decide +kernel, ?_, ?_⟩
  · rw [hlow]
    decide
  · rw [hlow]
    decide
  · decide +kernel

end MotionScript
