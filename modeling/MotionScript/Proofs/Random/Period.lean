import Mathlib
import MotionScript.Random
/-!
# The period of the generator

Both kinds of steps that scramble a state can be undone: a word is not changed beyond recognition by
the upper part of itself, and an odd factor has an inverse.  The states run through all words, as
their distance is odd.  So from every state the next `2 ^ 64` outputs are all words, each of them
once, and then they begin again.
-/

namespace MotionScript.Random

/-! ### Scrambling -/

/-- A word that equals its upper part is zero, and so two words with one image are equal. -/
theorem xorShift_injective (shift : UInt64) (hshift : 0 < shift.toNat % 64) :
    Function.Injective fun word : UInt64 => word ^^^ (word >>> shift) := by
  intro left right heq
  have hdifference : left ^^^ right = (left ^^^ right) >>> shift := by
    rw [UInt64.shiftRight_xor, ← UInt64.xor_eq_zero_iff]
    have hzero := UInt64.xor_eq_zero_iff.2 heq
    dsimp only at hzero
    rw [← hzero]
    ac_rfl
  have hfixed : (left ^^^ right).toNat = (left ^^^ right).toNat / 2 ^ (shift.toNat % 64) := by
    rw [← Nat.shiftRight_eq_div_pow, ← UInt64.toNat_shiftRight, ← hdifference]
  have hzero : (left ^^^ right).toNat = 0 := by
    -- A word that is not zero is greater than its upper part.
    by_contra hne
    have hless := Nat.div_lt_self (Nat.pos_of_ne_zero hne)
      (Nat.one_lt_two_pow (Nat.ne_of_gt hshift))
    omega
  exact UInt64.xor_eq_zero_iff.1 (UInt64.toNat_inj.1 hzero)

/-- Multiplying by a factor that has an inverse loses nothing. -/
theorem mul_injective (factor inverse : UInt64) (hinverse : factor * inverse = 1) :
    Function.Injective fun word : UInt64 => word * factor := by
  intro left right heq
  have hundone := congrArg (· * inverse) heq
  simpa only [UInt64.mul_assoc, hinverse, UInt64.mul_one] using hundone

/-- The distance of the states is odd, so its multiples lose nothing either. -/
theorem mul_step_injective : Function.Injective fun word : UInt64 => word * step :=
  mul_injective step 0xF1DE83E19937733D (by decide)

/-- Each of the three steps of the output can be undone. -/
theorem scramble_injective : Function.Injective scramble := by
  have hfirst := xorShift_injective 30 (by decide)
  have hsecond := xorShift_injective 27 (by decide)
  have hthird := xorShift_injective 31 (by decide)
  have hfactor := mul_injective 0xBF58476D1CE4E5B9 0x96DE1B173F119089 (by decide)
  have hfactor' := mul_injective 0x94D049BB133111EB 0x319642B2D24D8EC3 (by decide)
  exact hthird.comp (hfactor'.comp (hsecond.comp (hfactor.comp hfirst)))

/-! ### Outputs -/

def after (random : Random) : Nat → Random
  | 0 => random
  | draws + 1 => (random.after draws).next.2

def output (random : Random) (draws : Nat) : UInt64 :=
  (random.after draws).next.1

/-- The state after some draws in closed form. -/
theorem state_after (random : Random) (draws : Nat) :
    (random.after draws).state = random.state + .ofNat draws * step := by
  induction draws with
  | zero => simp [after]
  | succ draws ih =>
      change (random.after draws).state + step = _
      rw [ih, UInt64.ofNat_add, UInt64.add_mul, UInt64.add_assoc]
      rfl

theorem output_eq (random : Random) (draws : Nat) :
    random.output draws = scramble (random.state + .ofNat draws * step + step) := by
  rw [output, next, state_after]

theorem output_eq_output_iff (random : Random) (earlier later : Nat) :
    random.output earlier = random.output later ↔ earlier % 2 ^ 64 = later % 2 ^ 64 := by
  rw [output_eq, output_eq, scramble_injective.eq_iff, UInt64.add_left_inj, UInt64.add_right_inj,
    mul_step_injective.eq_iff, UInt64.ofNat_eq_iff_mod_eq_toNat, UInt64.toNat_ofNat']

/-- Every word is the output of a draw in each period. -/
theorem exists_output_eq (random : Random) (word : UInt64) :
    ∃ draws < 2 ^ 64, random.output draws = word := by
  obtain ⟨state, rfl⟩ := Finite.surjective_of_injective scramble_injective word
  obtain ⟨distance, hdistance⟩ :=
    Finite.surjective_of_injective mul_step_injective (state - step - random.state)
  dsimp only at hdistance
  refine ⟨distance.toNat, distance.toNat_lt, ?_⟩
  rw [output_eq, UInt64.ofNat_toNat, hdistance, UInt64.add_comm random.state,
    UInt64.sub_add_cancel, UInt64.sub_add_cancel]

theorem injOn_output (random : Random) : Set.InjOn random.output (Set.Iio (2 ^ 64)) := by
  intro earlier hearlier later hlater heq
  have hsame := (output_eq_output_iff random earlier later).1 heq
  rwa [Nat.mod_eq_of_lt (Set.mem_Iio.1 hearlier), Nat.mod_eq_of_lt (Set.mem_Iio.1 hlater)] at hsame

end MotionScript.Random
