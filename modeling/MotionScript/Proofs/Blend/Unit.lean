import Mathlib
import MotionScript.Blend
/-!
# The unit interval

A blend goes from one value to another while its progress goes from zero to one.  What lies outside
of that interval is limited to it first.  In an ordered field the limit keeps the order and the
symmetry of the interval, and it keeps what lies inside.
-/

namespace MotionScript

variable {α : Type} [Field α]

theorem lerp_zero (a b : α) : lerp a b 0 = a := by
  rw [lerp, mul_zero, add_zero]

theorem lerp_one (a b : α) : lerp a b 1 = b := by
  rw [lerp, mul_one, add_sub_cancel]

variable [LinearOrder α] [IsStrictOrderedRing α] {t : α}

theorem unitClamp_eq (t : α) : unitClamp t = max 0 (min 1 t) := by
  rw [unitClamp, Nat.cast_zero, Nat.cast_one]
  split
  next hless => rw [min_eq_right (hless.le.trans zero_le_one), max_eq_left hless.le]
  next hleast =>
    split
    next hgreat => rw [min_eq_left hgreat.le, max_eq_right zero_le_one]
    next hmost => rw [min_eq_right (not_lt.1 hmost), max_eq_right (not_lt.1 hleast)]

theorem unitClamp_mem (t : α) : unitClamp t ∈ Set.Icc (0 : α) 1 := by
  rw [unitClamp_eq]
  exact ⟨le_max_left _ _, max_le zero_le_one (min_le_left _ _)⟩

theorem unitClamp_of_mem (ht : t ∈ Set.Icc (0 : α) 1) : unitClamp t = t := by
  rw [unitClamp_eq, min_eq_right ht.2, max_eq_right ht.1]

theorem unitClamp_of_nonpos (ht : t ≤ 0) : unitClamp t = 0 := by
  rw [unitClamp_eq, max_eq_left ((min_le_right _ _).trans ht)]

theorem unitClamp_of_one_le (ht : 1 ≤ t) : unitClamp t = 1 := by
  rw [unitClamp_eq, min_eq_left ht, max_eq_right zero_le_one]

theorem monotone_unitClamp : Monotone (unitClamp : α → α) := by
  intro s t hst
  rw [unitClamp_eq, unitClamp_eq]
  exact max_le_max le_rfl (min_le_min le_rfl hst)

/-- Clamping does not tell the two ends of the unit interval apart. -/
theorem unitClamp_one_sub (t : α) : unitClamp (1 - t) = 1 - unitClamp t := by
  obtain hleast | hpos := le_or_gt t 0
  · rw [unitClamp_of_nonpos hleast, unitClamp_of_one_le (by linarith), sub_zero]
  · obtain hless | hmost := lt_or_ge t 1
    · rw [unitClamp_of_mem ⟨hpos.le, hless.le⟩, unitClamp_of_mem ⟨by linarith, by linarith⟩]
    · rw [unitClamp_of_one_le hmost, unitClamp_of_nonpos (by linarith), sub_self]

/-- In the first half of the interval there is room for twice the number. -/
theorem unitClamp_two_mul (ht : t ≤ 1 / 2) : unitClamp (2 * t) = 2 * unitClamp t := by
  obtain hleast | hpos := le_or_gt t 0
  · rw [unitClamp_of_nonpos hleast, unitClamp_of_nonpos (by linarith), mul_zero]
  · rw [unitClamp_of_mem ⟨hpos.le, by linarith⟩, unitClamp_of_mem ⟨by linarith, by linarith⟩]

theorem unitClamp_le_half (ht : t ≤ 1 / 2) : unitClamp t ≤ 1 / 2 := by
  rw [unitClamp_eq]
  exact max_le (by norm_num) ((min_le_right _ _).trans ht)

end MotionScript
