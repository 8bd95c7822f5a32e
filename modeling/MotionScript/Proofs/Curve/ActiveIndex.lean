import MotionScript.Curve.Segment
import MotionScript.Proofs.Lists
import MotionScript.Proofs.Timeline.Ascending
/-!
# The node in force

Among the nodes that a curve runs through, the one in force at an input is the last at or before it,
and the first of them at an input before all.  Whatever the input is, and even if it is not a
number, the position of that node is within the curve unless the curve has no node to run through.
-/

namespace MotionScript.Curve

variable {ε : Type}

/-- The positions of the visible nodes at or before an input. -/
def reached (curve : Curve ε Float32) (x : Float32) : Set Nat :=
  { i | curve.shape.margin ≤ i ∧ i < curve.nodes.length - 2 * curve.shape.margin ∧
    ∃ node, curve.nodes[i]? = some node ∧ node.time ≤ x }

theorem getElem?_visibleNodes (curve : Curve ε Float32) (i : Nat) :
    curve.visibleNodes[i]? =
      if curve.shape.margin + i < curve.nodes.length - 2 * curve.shape.margin then
        curve.nodes[curve.shape.margin + i]?
      else none := by
  rw [visibleNodes, List.getElem?_drop, List.getElem?_take]

/-- The nodes of a curve are a timeline. -/
theorem ofEntries_of_ofNodes {shape : Shape} {nodes : List (Node ε Float32)} {input range : ε}
    {curve : Curve ε Float32} (hcurve : ofNodes shape nodes input range = .ok curve) :
    Timeline.ofEntries Node.time .nodeTimeNotFinite nodes = .ok curve.nodes := by
  rw [ofNodes] at hcurve
  split at hcurve
  · cases hcurve
  · cases hsorted : Timeline.ofEntries Node.time .nodeTimeNotFinite nodes with
    | error fault => rw [hsorted] at hcurve; cases hcurve
    | ok sorted =>
        rw [hsorted] at hcurve
        cases hcurve
        rfl

theorem ascending_of_ofNodes {shape : Shape} {nodes : List (Node ε Float32)} {input range : ε}
    {curve : Curve ε Float32} (hcurve : ofNodes shape nodes input range = .ok curve) :
    Timeline.Ascending Node.time curve.nodes :=
  .of_ofEntries (ofEntries_of_ofNodes hcurve)

theorem ofNodes_of_pairwise (shape : Shape) (nodes : List (Node ε Float32))
    (hcount : shape = .bezier → nodes.length = bezierCount)
    (hfinite : ∀ node ∈ nodes, node.time.isFinite = true)
    (hordered : nodes.Pairwise fun left right => Single.rank left.time ≤ Single.rank right.time)
    (input range : ε) : ofNodes shape nodes input range = .ok ⟨shape, nodes, input, range⟩ := by
  rw [ofNodes, if_neg fun hcounts => hcounts.2 (hcount hcounts.1),
    Timeline.ofEntries_of_pairwise _ hfinite hordered]
  rfl

theorem ascending_visibleNodes {curve : Curve ε Float32}
    (hascending : Timeline.Ascending Node.time curve.nodes) :
    Timeline.Ascending Node.time curve.visibleNodes :=
  hascending.sublist ((List.drop_sublist _ _).trans (List.take_sublist _ _))

/-- The nodes that the search for the active index goes over are those at or before the input. -/
theorem mem_reached_iff {curve : Curve ε Float32}
    (hascending : Timeline.Ascending Node.time curve.nodes) {x : Float32} (hx : x.isNaN = false)
    (i : Nat) :
    i ∈ curve.reached x ↔ curve.shape.margin ≤ i ∧ i - curve.shape.margin <
      (curve.visibleNodes.takeWhile fun node => !decide (x < node.time)).length := by
  have hvisible := ascending_visibleNodes hascending
  have htest {node : Node ε Float32} (hmem : node ∈ curve.visibleNodes) :
      (!decide (x < node.time)) = true ↔ node.time ≤ x := by
    rw [Bool.not_eq_true', decide_eq_false_iff_not, Single.not_lt_iff hx (hvisible.isNaN hmem)]
  rw [lt_length_takeWhile_iff]
  · constructor
    · rintro ⟨hmargin, hlast, node, hnode, hle⟩
      have hfound : curve.visibleNodes[i - curve.shape.margin]? = some node := by
        rw [getElem?_visibleNodes, Nat.add_sub_cancel' hmargin, if_pos hlast, hnode]
      exact ⟨hmargin, node, hfound, (htest (List.mem_of_getElem? hfound)).2 hle⟩
    · rintro ⟨hmargin, node, hfound, hle⟩
      have hmem := List.mem_of_getElem? hfound
      rw [getElem?_visibleNodes, Nat.add_sub_cancel' hmargin] at hfound
      split at hfound
      next hlast => exact ⟨hmargin, hlast, node, hfound, (htest hmem).1 hle⟩
      next => cases hfound
  · refine hvisible.pairwise.imp_of_mem ?_
    intro left right hleft hright hle
    rw [htest hleft, htest hright, Single.le_iff (hvisible.isNaN hleft) hx,
      Single.le_iff (hvisible.isNaN hright) hx]
    exact hle.trans

/-- The active index is the last position reached, and the first visible one if none is. -/
theorem activeIndex_eq {curve : Curve ε Float32}
    (hascending : Timeline.Ascending Node.time curve.nodes) {x : Float32} (hx : x.isNaN = false) :
    IsGreatest (curve.reached x) (curve.activeIndex x) ∨
      curve.reached x = ∅ ∧ curve.activeIndex x = curve.shape.margin := by
  have hreached := mem_reached_iff hascending hx
  rw [activeIndex]
  generalize (curve.visibleNodes.takeWhile fun node => !decide (x < node.time)).length = count at *
  cases count with
  | zero =>
      refine Or.inr ⟨Set.eq_empty_iff_forall_notMem.2 fun i hmem => ?_, rfl⟩
      exact Nat.not_lt_zero _ ((hreached i).1 hmem).2
  | succ count =>
      refine Or.inl ⟨(hreached _).2 (by omega), fun i hmem => ?_⟩
      have hbound := (hreached i).1 hmem
      omega

/-! ### Positions within the curve -/

/-- The active node lies inside the margins that the shape keeps at both ends. -/
theorem activeIndex_lt (curve : Curve ε Float32)
    (hvisible : 3 * curve.shape.margin < curve.nodes.length) (x : Float32) :
    curve.shape.margin ≤ curve.activeIndex x ∧
      curve.activeIndex x < curve.nodes.length - 2 * curve.shape.margin := by
  have hlength := (List.takeWhile_sublist (l := curve.visibleNodes)
    fun node => !decide (x < node.time)).length_le
  rw [visibleNodes, List.length_drop, List.length_take] at hlength
  rw [activeIndex, visibleNodes]
  omega

end MotionScript.Curve
