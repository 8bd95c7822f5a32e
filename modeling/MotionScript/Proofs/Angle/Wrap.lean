import Mathlib
import MotionScript.Angle
/-!
# The direction of an angle

Every angle has one direction: the angle above minus half a turn and at most half a turn that is a
number of whole turns away from it.  In exact arithmetic moving an angle turn by turn comes to an
end at its direction, and the way through a remainder leads to the same.  So wrapping changes no
direction and depends on nothing else, and the arc from one angle to another is at most half a turn.
-/

namespace MotionScript.Angle

variable {α : Type} [Field α]

theorem halfTurn_eq : (halfTurn : α) = 180 :=
  Nat.cast_ofNat

theorem turn_eq : (turn : α) = 360 :=
  Nat.cast_ofNat

/-! ### Directions -/

/-- Two angles that are a number of whole turns apart. -/
def Congruent (angle other : α) : Prop :=
  ∃ turns : ℤ, angle - other = turns * 360

namespace Congruent

theorem refl (angle : α) : Congruent angle angle :=
  ⟨0, by simp⟩

theorem symm {angle other : α} (hcongruent : Congruent angle other) : Congruent other angle := by
  obtain ⟨turns, hturns⟩ := hcongruent
  exact ⟨-turns, by push_cast; linear_combination -hturns⟩

theorem trans {angle middle other : α} (hfirst : Congruent angle middle)
    (hsecond : Congruent middle other) : Congruent angle other := by
  obtain ⟨turns, hturns⟩ := hfirst
  obtain ⟨more, hmore⟩ := hsecond
  exact ⟨turns + more, by push_cast; linear_combination hturns + hmore⟩

theorem add_turns (angle : α) (turns : ℤ) : Congruent (angle + turns * 360) angle :=
  ⟨turns, add_sub_cancel_left _ _⟩

theorem sub_turns (angle : α) (turns : ℤ) : Congruent angle (angle - turns * 360) :=
  ⟨turns, sub_sub_cancel _ _⟩

end Congruent

variable [LinearOrder α]

/-- The direction of an angle. -/
structure Represents (angle direction : α) : Prop where
  above : -180 < direction
  atMost : direction ≤ 180
  congruent : Congruent angle direction

section Steps

variable {angle : α}

/-! ### Turn by turn -/

theorem lower_of_le (hle : angle ≤ 180) (steps : Nat) : lower steps angle = angle := by
  cases steps with
  | zero => rfl
  | succ steps => rw [lower, halfTurn_eq, if_neg hle.not_gt]

/-- Whole turns are taken off, so the direction stays. -/
theorem congruent_lower (steps : Nat) (angle : α) : Congruent angle (lower steps angle) := by
  induction steps generalizing angle with
  | zero => exact .refl angle
  | succ steps ih =>
      rw [lower, turn_eq]
      split
      · exact .trans ⟨1, by simp⟩ (ih (angle - 360))
      · exact .refl angle

theorem raise_of_lt (habove : -180 < angle) (steps : Nat) : raise steps angle = angle := by
  cases steps with
  | zero => rfl
  | succ steps => rw [raise, halfTurn_eq, if_neg habove.not_ge]

/-- Whole turns are added, so the direction stays. -/
theorem congruent_raise (steps : Nat) (angle : α) : Congruent angle (raise steps angle) := by
  induction steps generalizing angle with
  | zero => exact .refl angle
  | succ steps ih =>
      rw [raise, turn_eq]
      split
      · exact .trans ⟨-1, by push_cast; ring⟩ (ih (angle + 360))
      · exact .refl angle

variable [IsStrictOrderedRing α]

/-- No turn is taken away that would lead below the direction. -/
theorem lt_lower (habove : -180 < angle) (steps : Nat) : -180 < lower steps angle := by
  induction steps generalizing angle with
  | zero => exact habove
  | succ steps ih =>
      rw [lower, halfTurn_eq, turn_eq]
      split
      next hgreat => exact ih (by linarith)
      next => exact habove

/-- The loop that takes turns off ends at most at a half turn, given steps enough. -/
theorem lower_le {steps : Nat} (hreach : angle ≤ 180 + steps * 360) : lower steps angle ≤ 180 := by
  induction steps generalizing angle with
  | zero => simpa [lower] using hreach
  | succ steps ih =>
      rw [lower, halfTurn_eq, turn_eq]
      push_cast at hreach
      split
      next => exact ih (by linarith)
      next hless => exact not_lt.1 hless

/-- No turn is added that would lead above the direction. -/
theorem raise_le (hmost : angle ≤ 180) (steps : Nat) : raise steps angle ≤ 180 := by
  induction steps generalizing angle with
  | zero => exact hmost
  | succ steps ih =>
      rw [raise, halfTurn_eq, turn_eq]
      split
      next hless => exact ih (by linarith)
      next => exact hmost

/-- The loop that adds turns ends above minus a half turn, given steps enough. -/
theorem lt_raise {steps : Nat} (hreach : -180 - steps * 360 < angle) :
    -180 < raise steps angle := by
  induction steps generalizing angle with
  | zero => simpa [raise] using hreach
  | succ steps ih =>
      rw [raise, halfTurn_eq, turn_eq]
      push_cast at hreach
      split
      next => exact ih (by linarith)
      next hgreat => exact not_le.1 hgreat

/-- With as many steps as there are turns on the way, the angle arrives at its direction. -/
theorem represents_raise_lower {steps : Nat} (hsteps : |angle| < 180 + steps * 360) :
    Represents angle (raise steps (lower steps angle)) := by
  -- At most one of the loops moves the angle: what was too great does not become too small.
  obtain ⟨hleast, hmost⟩ := abs_lt.1 hsteps
  have hlowered : lower steps angle ≤ 180 := lower_le hmost.le
  have hraised : -180 < raise steps (lower steps angle) := by
    obtain hle | hgreat := le_or_gt angle 180
    · rw [lower_of_le hle]
      exact lt_raise (by linarith)
    · have habove := lt_lower (show -180 < angle by linarith) steps
      rwa [raise_of_lt habove]
  exact ⟨hraised, raise_le hlowered steps,
    (congruent_lower steps angle).trans (congruent_raise steps _)⟩

/-- For moderate angles there are as many steps as it takes. -/
theorem represents_wrapBySteps (hmoderate : |angle| < 5760) :
    Represents angle (wrapBySteps angle) :=
  represents_raise_lower (by rw [moderateTurns]; push_cast; linarith)

end Steps

variable [FloorRing α]

/-! ### By a remainder -/

/-- The remainder of an exact division whose quotient has lost its fraction. -/
def exactRemainder (dividend divisor : α) : α :=
  let quotient := dividend / divisor
  dividend - (if 0 ≤ quotient then ⌊quotient⌋ else ⌈quotient⌉ : ℤ) * divisor

local instance exactMod : Mod α where
  mod := exactRemainder

theorem positiveRemainder_eq (angle : α) :
    positiveRemainder angle turn =
      if exactRemainder angle 360 < 0 then exactRemainder angle 360 + 360
      else exactRemainder angle 360 := by
  rw [positiveRemainder, turn_eq, Nat.cast_zero]
  rfl

theorem congruent_positiveRemainder (angle : α) :
    Congruent angle (positiveRemainder angle turn) := by
  have hremainder : Congruent angle (exactRemainder angle 360) := .sub_turns angle _
  rw [positiveRemainder_eq]
  split
  · exact hremainder.trans ⟨-1, by push_cast; ring⟩
  · exact hremainder

section Wrapping

variable [IsStrictOrderedRing α] {angle other direction : α}

/-- The quotient loses less than one, so the remainder is smaller than the divisor. -/
theorem abs_exactRemainder_lt {divisor : α} (hdivisor : 0 < divisor) (dividend : α) :
    |exactRemainder dividend divisor| < divisor := by
  have hquotient (whole : ℤ) :
      dividend - whole * divisor = (dividend / divisor - whole) * divisor := by
    rw [sub_mul, div_mul_cancel₀ _ hdivisor.ne']
  rw [exactRemainder, hquotient, abs_mul, abs_of_pos hdivisor]
  refine mul_lt_of_lt_one_left hdivisor (abs_lt.2 ?_)
  split
  · have hfloor := Int.floor_le (dividend / divisor)
    have hfloor' := Int.lt_floor_add_one (dividend / divisor)
    constructor <;> linarith
  · have hceil := Int.le_ceil (dividend / divisor)
    have hceil' := Int.ceil_lt_add_one (dividend / divisor)
    constructor <;> linarith

theorem positiveRemainder_bounds (angle : α) :
    0 ≤ positiveRemainder angle turn ∧ positiveRemainder angle turn < 360 := by
  obtain ⟨hleast, hmost⟩ := abs_lt.1 (abs_exactRemainder_lt (show (0 : α) < 360 by norm_num) angle)
  rw [positiveRemainder_eq]
  split <;> constructor <;> linarith

/-- The path through the remainder finds the representative of every direction. -/
theorem represents_wrapByRemainder (angle : α) : Represents angle (wrapByRemainder angle) := by
  have hcongruent := congruent_positiveRemainder angle
  obtain ⟨hleast, hmost⟩ := positiveRemainder_bounds angle
  rw [wrapByRemainder, halfTurn_eq]
  split
  next hgreat =>
    rw [turn_eq] at *
    exact ⟨by linarith, by linarith, hcongruent.trans ⟨1, by simp⟩⟩
  next hless => exact ⟨by linarith, not_lt.1 hless, hcongruent⟩

/-- Both ways lead to the direction, so it does not matter which one is taken. -/
theorem represents_wrap (angle : α) : Represents angle (wrap angle) := by
  have hlimit : (turn : α) * ((moderateTurns : Nat) : α) = 5760 := by
    rw [turn_eq, moderateTurns]
    norm_num
  rw [wrap, hlimit]
  split
  next hmoderate => exact represents_wrapBySteps (abs_lt.2 hmoderate)
  next => exact represents_wrapByRemainder angle

/-! ### What wrapping depends on -/

omit [FloorRing α] in
/-- Two directions of one angle are less than a turn apart. -/
theorem Represents.unique (hdirection : Represents angle direction)
    (hother : Represents angle other) : direction = other := by
  obtain ⟨turns, hturns⟩ := hdirection.congruent.symm.trans hother.congruent
  have habove := hdirection.above
  have hmost := hdirection.atMost
  have habove' := hother.above
  have hmost' := hother.atMost
  have hlow : ((-1 : ℤ) : α) < turns := by
    push_cast
    linarith
  have hhigh : (turns : α) < (1 : ℤ) := by
    push_cast
    linarith
  obtain rfl : turns = 0 := by
    rw [Int.cast_lt] at hlow hhigh
    omega
  simpa [sub_eq_zero] using hturns

/-- Angles that are whole turns apart are wrapped to one direction. -/
theorem wrap_congr (hcongruent : Congruent angle other) : wrap angle = wrap other := by
  have hother := represents_wrap other
  exact (represents_wrap angle).unique
    ⟨hother.above, hother.atMost, hcongruent.trans hother.congruent⟩

/-- In exact arithmetic every angle has exactly one direction.  The loops over the turns come to an
end there if they are given enough steps, which they are for moderate angles; the remainder leads
there too, and so does wrapping.  Wrapping twice is wrapping once, and whole turns make no
difference.  The arc from one angle to another is at most half a turn, progress runs through it
evenly, and it ends at the latter up to whole turns. -/
theorem wrap_finds_direction :
    (∀ angle : α,
      (∃! direction, Represents angle direction) ∧
        (∃ enough, ∀ steps ≥ enough,
          ¬ halfTurn < lower steps angle ∧ ¬ raise steps (lower steps angle) ≤ -halfTurn ∧
            Represents angle (raise steps (lower steps angle))) ∧
        (|angle| < 5760 → Represents angle (wrapBySteps angle)) ∧
        Represents angle (wrapByRemainder angle) ∧ Represents angle (wrap angle)) ∧
      (∀ angle : α, wrap (wrap angle) = wrap angle) ∧
      (∀ (angle : α) (turns : ℤ), wrap (angle + turns * 360) = wrap angle) ∧
      ∀ start stop : α, ∃ arc, |arc| ≤ 180 ∧ (∀ t, lerpBy wrap start stop t = start + t * arc) ∧
        Congruent (lerpBy wrap start stop 1) stop := by
  refine ⟨fun angle => ⟨?_, ?_, represents_wrapBySteps, represents_wrapByRemainder angle,
    represents_wrap angle⟩, fun angle => ?_, fun angle turns => ?_, fun start stop => ?_⟩
  · exact ⟨wrap angle, represents_wrap angle, fun other hother =>
      hother.unique (represents_wrap angle)⟩
  · obtain ⟨enough, henough⟩ := exists_nat_ge |angle|
    refine ⟨enough, fun steps hsteps => ?_⟩
    have hcast : (enough : α) ≤ steps := Nat.cast_le.2 hsteps
    have hreach : |angle| < 180 + steps * 360 := by
      have hnonneg := abs_nonneg angle
      linarith
    have hlowered : lower steps angle ≤ 180 := lower_le (abs_lt.1 hreach).2.le
    have hraised := represents_raise_lower hreach
    rw [halfTurn_eq]
    exact ⟨hlowered.not_gt, hraised.above.not_ge, hraised⟩
  · exact wrap_congr (represents_wrap angle).congruent.symm
  · exact wrap_congr (.add_turns angle turns)
  · have harc := represents_wrap (stop - start)
    refine ⟨wrap (stop - start), abs_le.2 ⟨harc.above.le, harc.atMost⟩, fun t => ?_, ?_⟩
    · rw [lerpBy, mul_comm]
    · obtain ⟨turns, hturns⟩ := harc.congruent.symm
      exact ⟨turns, by rw [lerpBy, ← hturns]; ring⟩

/-- Three half turns, to one side and to the other, and an angle that is too large for the steps. -/
theorem wrap_finds_direction_half_turn :
    |(-540 : ℚ)| < 5760 ∧ wrapBySteps (-540 : ℚ) = 180 ∧ wrapBySteps (540 : ℚ) = 180 ∧
      wrapByRemainder (-540 : ℚ) = 180 ∧ wrap (72180.5 : ℚ) = -179.5 := by
  have hmoderate : |(-540 : ℚ)| < 5760 := by norm_num [abs_lt]
  have hmoderate' : |(540 : ℚ)| < 5760 := by norm_num [abs_lt]
  have hdirections := (wrap_finds_direction (α := ℚ)).1
  obtain ⟨-, -, hsteps, hremainder, -⟩ := hdirections (-540)
  obtain ⟨-, -, hsteps', -, -⟩ := hdirections 540
  obtain ⟨-, -, -, -, hlarge⟩ := hdirections 72180.5
  have hhalf : Represents (-540 : ℚ) 180 := ⟨by norm_num, by norm_num, -2, by norm_num⟩
  have hhalf' : Represents (540 : ℚ) 180 := ⟨by norm_num, by norm_num, 1, by norm_num⟩
  have hlarge' : Represents (72180.5 : ℚ) (-179.5) := ⟨by norm_num, by norm_num, 201, by norm_num⟩
  exact ⟨hmoderate, (hsteps hmoderate).unique hhalf, (hsteps' hmoderate').unique hhalf',
    hremainder.unique hhalf, hlarge.unique hlarge'⟩

end Wrapping

end MotionScript.Angle
