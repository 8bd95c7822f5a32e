import MotionScript.Curve.Segment
/-!
# Segments by positions

The segment in force at an input, told by the positions of its nodes in the curve.
-/

namespace MotionScript.Curve

variable {ε α : Type}

theorem drop_eq_four {nodes : List (Node ε α)} {i : Nat} (hlast : i + 3 < nodes.length) :
    nodes.drop i =
      nodes[i] :: nodes[i + 1] :: nodes[i + 2] :: nodes[i + 3] :: nodes.drop (i + 4) := by
  rw [List.drop_eq_getElem_cons (by omega), List.drop_eq_getElem_cons (by omega),
    List.drop_eq_getElem_cons (by omega), List.drop_eq_getElem_cons (by omega)]

theorem drop_pred_eq {nodes : List (Node ε α)} {i : Nat} (hfirst : 1 ≤ i)
    (hlast : i + 2 < nodes.length) :
    nodes.drop (i - 1) =
      nodes[i - 1] :: nodes[i] :: nodes[i + 1] :: nodes[i + 2] :: nodes.drop (i + 3) := by
  obtain ⟨i, rfl⟩ : ∃ before, i = before + 1 := ⟨i - 1, by omega⟩
  exact drop_eq_four hlast

variable [LT α] [DecidableLT α] {curve : Curve ε α} {x : α}

/-- A linear curve runs along the line from its active node to the next one. -/
theorem segment_linear (hshape : curve.shape = .linear) (hnodes : curve.nodes.length ≠ 1)
    (hi : curve.activeIndex x < curve.nodes.length) :
    curve.segment x = .line curve.nodes[curve.activeIndex x]
      (curve.nodes[curve.activeIndex x + 1]?.getD curve.nodes[curve.activeIndex x]) := by
  rw [segment, hshape]
  dsimp only
  split
  next node hsingle => exact absurd (congrArg List.length hsingle) hnodes
  next =>
    rw [List.drop_eq_getElem_cons hi]
    dsimp only
    rw [List.headD_eq_head?_getD, List.head?_drop]

/-- A chain runs from its active node to the next one and stays level behind the last one. -/
theorem segment_bezierChain (hshape : curve.shape = .bezierChain)
    (hi : curve.activeIndex x < curve.nodes.length) :
    curve.segment x =
      match curve.nodes[curve.activeIndex x + 1]? with
      | none => .level curve.nodes[curve.activeIndex x].rightValue
      | some stop => .chain curve.nodes[curve.activeIndex x] stop := by
  rw [segment, hshape, List.drop_eq_getElem_cons hi]
  dsimp only
  rw [← List.head?_drop]
  cases curve.nodes.drop (curve.activeIndex x + 1) <;> rfl

theorem segment_catmullRom (hshape : curve.shape = .catmullRom) (hfirst : 1 ≤ curve.activeIndex x)
    (hlast : curve.activeIndex x + 2 < curve.nodes.length) :
    curve.segment x = .spline curve.nodes[curve.activeIndex x - 1]
      curve.nodes[curve.activeIndex x] curve.nodes[curve.activeIndex x + 1]
      curve.nodes[curve.activeIndex x + 2] := by
  rw [segment, hshape, drop_pred_eq hfirst hlast]

end MotionScript.Curve
