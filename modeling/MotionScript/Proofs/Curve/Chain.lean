import MotionScript.Proofs.Blend.Cubic
import MotionScript.Proofs.Curve.Exact
/-!
# Chains of cubics

In exact arithmetic a chain with constant fields runs from each node to the next one on the cubic
that leaves the first of them with its right value and slope and reaches the second one with its
left value and slope.  Both slopes are counted per unit of the input.  So a chain is smooth at a
time where what arrives there is what leaves, and it jumps where nodes that differ share a time.
-/

namespace MotionScript

open Polynomial
open Segment (between)

namespace Curve

variable {α : Type}

/-- What a curve runs to just before a node. -/
def Node.leftKnot (node : Node α α) : Knot α :=
  ⟨node.time, node.leftValue, node.leftSlope⟩

/-- What a curve starts from just behind a node. -/
def Node.rightKnot (node : Node α α) : Knot α :=
  ⟨node.time, node.rightValue, node.rightSlope⟩

section Values

variable [Field α] [LinearOrder α] {nodes earlier later : List (Node α α)}
  {start stop node last : Node α α} {range x : α}

/-- The value of the chain through nodes with constant fields, at an input that is `x` in units of
the range. -/
def chained (nodes : List (Node α α)) (range x : α) : α :=
  Id.run (evaluateWith pure ⟨.bezierChain, nodes, x * range, range⟩)

/-- The value on the way from a node to the next one. -/
def onWay (start stop : Node α α) (x : α) : α :=
  let span := stop.time - start.time
  hermite start.rightValue (span * start.rightSlope) stop.leftValue (span * stop.leftSlope)
    (between start stop x)

/-- The control values stand at a third of the span, so their distance from the ends is a third of
what the slopes make of the span. -/
theorem run_value_chain [CharZero α] (start stop : Node α α) (x : α) :
    Id.run ((Segment.chain start stop).value pure x) = onWay start stop x := by
  have hthird : (stop.time - start.time) / 3 * 3 = stop.time - start.time :=
    div_mul_cancel₀ _ three_ne_zero
  simp only [Segment.value, pure_bind, Id.run_pure, Nat.cast_ofNat, bezier_eq_hermite, onWay,
    add_sub_cancel_left, sub_sub_cancel]
  rw [← mul_assoc, ← mul_assoc, mul_comm 3, hthird]

/-- The chain is on the way from the active node to the next one, or rests if there is none. -/
theorem chained_eq [CharZero α] (hrange : range ≠ 0)
    (hactive : (⟨.bezierChain, earlier ++ node :: later, x * range, range⟩ :
      Curve α α).activeIndex x = earlier.length) :
    chained (earlier ++ node :: later) range x =
      later.head?.elim node.rightValue fun stop => onWay node stop x := by
  have hnodes : earlier ++ node :: later ≠ [] := by simp
  have hdrop : (earlier ++ node :: later).drop earlier.length = node :: later := List.drop_left
  rw [chained, run_evaluateWith hnodes hrange, mul_div_cancel_right₀ x hrange]
  simp only [segment, hactive, hdrop]
  cases later with
  | nil => rfl
  | cons stop later => exact run_value_chain node stop x

theorem chained_of_partedAt [CharZero α] (hrange : range ≠ 0)
    (hparted : PartedAt nodes x earlier node later) :
    chained nodes range x = later.head?.elim node.rightValue fun stop => onWay node stop x := by
  obtain rfl := hparted.nodes_eq
  exact chained_eq hrange (activeIndex_of_partedAt rfl hparted)

end Values

section Ordered

variable [Field α] [LinearOrder α] [IsStrictOrderedRing α] {nodes earlier later : List (Node α α)}
  {start stop node last : Node α α} {range x : α}

/-- Before the first node of a chain the curve has the value that the node has to its right. -/
theorem chained_before (hordered : Ordered (start :: later)) (hrange : range ≠ 0)
    (hbefore : x < start.time) : chained (start :: later) range x = start.rightValue := by
  have hactive : (⟨.bezierChain, [] ++ start :: later, x * range, range⟩ :
      Curve α α).activeIndex x = ([] : List (Node α α)).length :=
    activeIndex_eq_zero rfl (by simpa using hbefore)
  refine (chained_eq hrange hactive).trans ?_
  cases later with
  | nil => rfl
  | cons stop later =>
      change onWay start stop x = _
      rw [onWay, between_eq_zero (hordered.le_head rfl) hbefore.le, hermite_zero]

theorem chained_last (hordered : Ordered (earlier ++ [last])) (hrange : range ≠ 0)
    (hreached : last.time ≤ x) : chained (earlier ++ [last]) range x = last.rightValue :=
  chained_of_partedAt hrange (hordered.partedAt hreached (by simp))

/-- Between two nodes that follow one another, a chain runs along the cubic through their knots. -/
theorem chained_between (hordered : Ordered nodes) (hrange : range ≠ 0)
    (hconsecutive : [start, stop] <:+: nodes) (hx : x ∈ Set.Ico start.time stop.time) :
    chained nodes range x = (cubic start.rightKnot stop.leftKnot).eval x := by
  obtain ⟨earlier, later, hnodes⟩ := hconsecutive
  have hnodes : nodes = earlier ++ start :: stop :: later := by simpa using hnodes.symm
  obtain rfl := hnodes
  have hway : start.time < stop.time := hx.1.trans_lt hx.2
  have hparted := hordered.partedAt hx.1 (by simpa using hx.2)
  rw [chained_of_partedAt hrange hparted, eval_cubic]
  change onWay start stop x = _
  rw [onWay, between_eq hway hx.1 hx.2.le]
  rfl

end Ordered

/-! ### Cubics from node to node -/

section Smooth

variable [NontriviallyNormedField α] [LinearOrder α] {nodes : List (Node α α)} {range : α}

/-- The values of a function run on cubics from node to node.  At a time between others they are
smooth if the left fields of the first node there are the right fields of the last one; a node that
has its time for itself is both. -/
structure RunsOnCubics (nodes : List (Node α α)) (value : α → α) : Prop where
  before : ∀ first ∈ nodes.head?, ∀ x < first.time, value x = first.rightValue
  between : ∀ start stop, [start, stop] <:+: nodes → start.time < stop.time →
    ∃ p : α[X], (∀ q, IsCubic start.rightKnot stop.leftKnot q ↔ q = p) ∧
      ∀ x ∈ Set.Ico start.time stop.time, value x = p.eval x
  smooth : ∀ before first last after, [before, first] <:+: nodes → [last, after] <:+: nodes →
    before.time < first.time → last.time < after.time → first.leftKnot = last.rightKnot →
      ContDiffAt α 1 value last.time
  after : ∀ last ∈ nodes.getLast?, ∀ x ≥ last.time, value x = last.rightValue

/-- A chain over ordered nodes runs on the one cubic between each node and the next one. -/
theorem chain_runs_on_cubics [IsStrictOrderedRing α] [OrderTopology α] (hordered : Ordered nodes)
    (hrange : range ≠ 0) : RunsOnCubics nodes (chained nodes range) where
  before first hfirst x hbefore := by
    obtain ⟨later, rfl⟩ := List.head?_eq_some_iff.1 hfirst
    exact chained_before hordered hrange hbefore
  between start stop hconsecutive hway :=
    ⟨cubic start.rightKnot stop.leftKnot, fun _ => isCubic_iff hway.ne,
      fun _ hx => chained_between hordered hrange hconsecutive hx⟩
  smooth before first last after hbefore hafter hbeforeway hafterway hknot := by
    have htime : first.time = last.time := congrArg Knot.time hknot
    have hbeforeway : before.rightKnot.time < last.rightKnot.time := hbeforeway.trans_eq htime
    have hafterway : last.rightKnot.time < after.leftKnot.time := hafterway
    refine contDiffAt_of_knot hbeforeway hafterway (fun x hx => ?_) fun x hx =>
      chained_between hordered hrange hafter hx
    rw [← hknot] at hx ⊢
    exact chained_between hordered hrange hbefore hx
  after last hlast x hreached := by
    obtain ⟨earlier, rfl⟩ := List.getLast?_eq_some_iff.1 hlast
    exact chained_last hordered hrange hreached

end Smooth

/-- A chain over three nodes that differ in their sides, at a range of two: it is smooth at the node
whose sides agree, and halfway to it both slopes count. -/
theorem chain_runs_on_cubics_three :
    let nodes : List (Node ℚ ℚ) := [⟨0, 9, 0, 9, 3⟩, ⟨2, 4, 4, 1, 1⟩, ⟨3, 0, 7, -2, 5⟩]
    Ordered nodes ∧ (2 : ℚ) ≠ 0 ∧ chained nodes 2 (-1) = 0 ∧ chained nodes 2 1 = 5 / 2 ∧
      ContDiffAt ℚ 1 (chained nodes 2) 2 ∧ chained nodes 2 3 = 7 := by
  intro nodes
  have hordered : Ordered nodes := by unfold Ordered; decide
  have hruns := chain_runs_on_cubics hordered (two_ne_zero : (2 : ℚ) ≠ 0)
  refine ⟨hordered, two_ne_zero, hruns.before _ rfl (-1) (by decide), ?_, ?_,
    hruns.after _ rfl 3 (by decide)⟩
  · obtain ⟨p, hcubic, hvalue⟩ :=
      hruns.between ⟨0, 9, 0, 9, 3⟩ ⟨2, 4, 4, 1, 1⟩ ⟨[], [⟨3, 0, 7, -2, 5⟩], rfl⟩ (by decide)
    have hp := (hcubic _).1 (isCubic_cubic (by decide))
    rw [hvalue 1 (by norm_num), ← hp, eval_cubic]
    norm_num [hermite, Node.leftKnot, Node.rightKnot]
  · exact hruns.smooth ⟨0, 9, 0, 9, 3⟩ ⟨2, 4, 4, 1, 1⟩ ⟨2, 4, 4, 1, 1⟩ ⟨3, 0, 7, -2, 5⟩
      ⟨[], [⟨3, 0, 7, -2, 5⟩], rfl⟩ ⟨[⟨0, 9, 0, 9, 3⟩], [], rfl⟩ (by decide) (by decide) rfl

/-- The sides of the second node agree, and yet the chain jumps at its time, which the first node
has as well. -/
theorem chain_jumps_at_shared_time :
    let nodes : List (Node ℚ ℚ) := [.plain 0 1 1, .plain 0 1 3, .plain 0 2 3]
    Ordered nodes ∧ nodes[1].leftKnot = nodes[1].rightKnot ∧
      ¬ ContDiffAt ℚ 1 (chained nodes 1) nodes[1].time := by
  intro nodes
  have hordered : Ordered nodes := by unfold Ordered; decide
  refine ⟨hordered, rfl, fun hsmooth => ?_⟩
  have hbefore : ∀ x < 1, chained nodes 1 x = 1 := fun x hx =>
    chained_before hordered one_ne_zero hx
  have hat : chained nodes 1 1 = 3 := by
    have hsecond : [.plain 0 1 3, .plain 0 2 3] <:+: nodes := ⟨[.plain 0 1 1], [], rfl⟩
    have hvalue := chained_between (x := 1) hordered one_ne_zero hsecond ⟨le_rfl, by decide⟩
    rw [hvalue, eval_cubic]
    norm_num [hermite, Node.leftKnot, Node.rightKnot, Node.plain]
  have hlimit : Filter.Tendsto (chained nodes 1) (nhdsWithin 1 (Set.Iio 1)) (nhds 3) :=
    hat ▸ hsmooth.continuousAt.tendsto.mono_left nhdsWithin_le_nhds
  have hlimit' : Filter.Tendsto (chained nodes 1) (nhdsWithin 1 (Set.Iio 1)) (nhds 1) :=
    tendsto_const_nhds.congr' (Filter.eventually_of_mem self_mem_nhdsWithin fun x hx =>
      (hbefore x hx).symm)
  exact absurd (tendsto_nhds_unique hlimit hlimit') (by norm_num)

end Curve

end MotionScript
