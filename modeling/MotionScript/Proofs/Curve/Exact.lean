import MotionScript.Curve.Evaluate
import MotionScript.Proofs.Blend.Unit
import MotionScript.Proofs.Curve.Parted
/-!
# Curves in exact arithmetic

In an ordered field the progress from one node to another is a quotient that is cut off at both
ends, and a curve whose expressions are constants has the value of the segment that is in force at
the quotient of its input and its range.
-/

namespace MotionScript

open Segment (between)

variable {α : Type} [Field α] [LinearOrder α]

namespace Curve

variable {start stop : Node α α} {x : α}

/-! ### Values of segments -/

theorem run_evaluateWith {curve : Curve α α} (hnodes : curve.nodes ≠ [])
    (hrange : curve.range ≠ 0) :
    Id.run (curve.evaluateWith pure) =
      Id.run ((curve.segment (curve.input / curve.range)).value pure
        (curve.input / curve.range)) := by
  have hempty : curve.nodes.isEmpty = false := List.isEmpty_eq_false_iff.2 hnodes
  have hzero : (curve.range == ((0 : Nat) : α)) = false := by simpa using hrange
  simp only [evaluateWith, hempty, hzero, pure_bind, Bool.false_eq_true, if_false]

/-! ### Progress between nodes -/

/-- Between two moments that differ, progress is the part of the way that has been covered. -/
theorem progress_eq (hway : start.time < stop.time) (x : α) :
    progress start.time stop.time x = (x - start.time) / (stop.time - start.time) := by
  have hspan : stop.time - start.time ≠ ((0 : Nat) : α) := by
    rw [Nat.cast_zero]
    exact sub_ne_zero.2 hway.ne'
  simp only [progress, beq_eq_false_iff_ne.2 hspan, Bool.false_eq_true, if_false]

variable [IsStrictOrderedRing α]

/-- At a node and before it there is no progress from it. -/
theorem between_eq_zero (hway : start.time ≤ stop.time) (hbefore : x ≤ start.time) :
    between start stop x = 0 := by
  obtain hless | hsame := hway.lt_or_eq
  · have hprogress : (x - start.time) / (stop.time - start.time) ≤ 0 :=
      div_nonpos_of_nonpos_of_nonneg (sub_nonpos.2 hbefore) (sub_nonneg.2 hway)
    rw [between, progress_eq hless, unitClamp_of_nonpos hprogress]
  · simp [between, progress, hsame, unitClamp_eq]

/-- Between two nodes nothing is cut off. -/
theorem between_eq (hway : start.time < stop.time) (hreached : start.time ≤ x)
    (hbehind : x ≤ stop.time) :
    between start stop x = (x - start.time) / (stop.time - start.time) := by
  have hnonneg : 0 ≤ (x - start.time) / (stop.time - start.time) :=
    div_nonneg (sub_nonneg.2 hreached) (sub_nonneg.2 hway.le)
  have hmost : (x - start.time) / (stop.time - start.time) ≤ 1 :=
    div_le_one_of_le₀ (sub_le_sub_right hbehind _) (sub_nonneg.2 hway.le)
  rw [between, progress_eq hway, unitClamp_of_mem ⟨hnonneg, hmost⟩]

/-- At the second node and behind it the way is done. -/
theorem between_eq_one (hway : start.time < stop.time) (hbehind : stop.time ≤ x) :
    between start stop x = 1 := by
  have hdone : 1 ≤ (x - start.time) / (stop.time - start.time) :=
    (one_le_div (sub_pos.2 hway)).2 (sub_le_sub_right hbehind _)
  rw [between, progress_eq hway, unitClamp_of_one_le hdone]

end Curve

end MotionScript
