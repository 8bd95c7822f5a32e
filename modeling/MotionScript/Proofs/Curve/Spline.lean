import MotionScript.Proofs.Blend.Cubic
import MotionScript.Proofs.Curve.Exact
import MotionScript.Proofs.Curve.Positions
/-!
# Splines through a list of values

A definition that lists values spreads them evenly: the spline passes through all of them but the
first and the last one while its input goes from zero to one.  In exact arithmetic it does so on
cubics that join smoothly, since the slope at each value is half the difference of its neighbours,
whether the value is reached or left.
-/

namespace MotionScript

open Segment (between)

namespace Curve

variable {α : Type}

section Spread

variable [Field α] [LinearOrder α]

/-- The spline of a list of constants at an input, over a range of one.  The nodes are put in the
order of their times, as those of every curve are. -/
def spline (values : List α) (x : α) : α :=
  Id.run (evaluateWith pure
    ⟨.catmullRom, (Node.spread 0 .catmullRom values).mergeSort fun left right =>
      decide (left.time ≤ right.time), x, 1⟩)

def evenSpline (values : List α) (x : α) : Curve α α :=
  ⟨.catmullRom, Node.spread 0 .catmullRom values, x, 1⟩

def evenNode (shape : Shape) (values : List α) (i : ℕ) : Node α α :=
  .plain 0 (shape.evenTime values.length i) (values.getD i 0)

variable {values : List α} {x y : α} {i j : ℕ}

theorem length_spread (shape : Shape) (values : List α) :
    (Node.spread 0 shape values : List (Node α α)).length = values.length := by
  simp [Node.spread]

theorem getElem_spread (shape : Shape)
    (hi : i < (Node.spread 0 shape values : List (Node α α)).length) :
    (Node.spread 0 shape values : List (Node α α))[i] = evenNode shape values i := by
  have hi' : i < values.length := length_spread shape values ▸ hi
  simp [Node.spread, evenNode, hi']

variable [IsStrictOrderedRing α]

/-- Nodes that are spread evenly are in order. -/
theorem evenTime_le (shape : Shape) (count : ℕ) (hij : i ≤ j) :
    (shape.evenTime count i : α) ≤ shape.evenTime count j := by
  simp only [Shape.evenTime]
  split
  next hspan =>
    have hcast : ((i - shape.margin : ℕ) : α) ≤ ((j - shape.margin : ℕ) : α) :=
      Nat.cast_le.2 (Nat.sub_le_sub_right hij _)
    rw [Nat.cast_zero] at hspan
    exact div_le_div_of_nonneg_right hcast hspan.le
  next => exact le_rfl

theorem ordered_spread (shape : Shape) (values : List α) :
    Ordered (Node.spread 0 shape values : List (Node α α)) := by
  refine List.pairwise_iff_getElem.2 fun i j hi hj hij => ?_
  rw [getElem_spread, getElem_spread]
  exact evenTime_le shape values.length hij.le

/-- Sorting changes nothing. -/
theorem spline_eq (values : List α) (x : α) :
    spline values x = Id.run ((evenSpline values x).evaluateWith pure) := by
  have hordered := ordered_spread .catmullRom values
  rw [spline, List.mergeSort_of_pairwise (hordered.imp decide_eq_true), evenSpline]

/-! ### The step in force -/

/-- The values that the spline runs through are one step apart. -/
theorem evenTime_succ (hcount : 4 ≤ values.length) (i : ℕ) :
    Shape.catmullRom.evenTime values.length (i + 1) = (i : α) / ((values.length - 3 : ℕ) : α) := by
  have hspan : (values.length : α) - ((2 * Shape.catmullRom.margin : ℕ) : α) - ((1 : ℕ) : α) =
      ((values.length - 3 : ℕ) : α) := by
    rw [Nat.cast_sub (by omega : 3 ≤ values.length), Shape.margin]
    push_cast
    ring
  have hpos : ((0 : ℕ) : α) < ((values.length - 3 : ℕ) : α) := Nat.cast_lt.2 (by omega)
  simp only [Shape.evenTime, hspan, if_pos hpos]
  rfl

omit [IsStrictOrderedRing α] in
theorem length_visibleNodes (values : List α) (x : α) :
    (evenSpline values x).visibleNodes.length = values.length - 3 := by
  simp only [visibleNodes, evenSpline, Shape.margin, List.length_drop, List.length_take,
    length_spread]
  omega

theorem getElem_visibleNodes (hcount : 4 ≤ values.length)
    (hi : i < (evenSpline values x).visibleNodes.length) :
    (evenSpline values x).visibleNodes[i].time = (i : α) / ((values.length - 3 : ℕ) : α) := by
  rw [← evenTime_succ hcount, add_comm]
  simp only [visibleNodes, List.getElem_drop, List.getElem_take, evenSpline, getElem_spread]
  rfl

/-- Over evenly spread nodes, the active one is the last whose share of the way is reached. -/
theorem activeIndex_evenSpline (hcount : 4 ≤ values.length) (hi : i < values.length - 3)
    (hreached : (i : α) / ((values.length - 3 : ℕ) : α) ≤ y)
    (hbehind : i + 1 < values.length - 3 →
      y < ((i + 1 : ℕ) : α) / ((values.length - 3 : ℕ) : α)) :
    (evenSpline values x).activeIndex y = i + 1 := by
  have hlength := length_visibleNodes values x
  have hordered : Ordered (evenSpline values x).visibleNodes :=
    (ordered_spread .catmullRom values).sublist
      ((List.drop_sublist _ _).trans (List.take_sublist _ _))
  rw [activeIndex_of_ordered hordered (hlength ▸ hi), add_comm]
  · rfl
  · rwa [getElem_visibleNodes hcount]
  · intro next hnext
    obtain ⟨hbound, rfl⟩ := List.getElem?_eq_some_iff.1 hnext
    rw [getElem_visibleNodes hcount]
    exact hbehind (hlength ▸ hbound)

/-- Every input that is not before the first step is on some step. -/
theorem exists_activeIndex (hcount : 4 ≤ values.length) (hy : 0 ≤ y) :
    ∃ i < values.length - 3, (i : α) / ((values.length - 3 : ℕ) : α) ≤ y ∧
      (i + 1 < values.length - 3 → y < ((i + 1 : ℕ) : α) / ((values.length - 3 : ℕ) : α)) := by
  let reached (i : ℕ) : Prop := (i : α) / ((values.length - 3 : ℕ) : α) ≤ y
  let last := Nat.findGreatest reached (values.length - 4)
  have hfirst : reached 0 := by simpa [reached] using hy
  have hlast : reached last := Nat.findGreatest_spec (Nat.zero_le _) hfirst
  have hle : last ≤ values.length - 4 := Nat.findGreatest_le _
  refine ⟨last, by omega, hlast, fun hnext => ?_⟩
  have hbehind : ¬ reached (last + 1) :=
    Nat.findGreatest_is_greatest (Nat.lt_succ_self last) (by omega)
  exact not_le.1 hbehind

/-! ### The cubics of the steps -/

omit [IsStrictOrderedRing α] in
/-- The step in force reaches from the value behind its position to the one behind that. -/
theorem segment_evenSpline (hi : i < values.length - 3)
    (hactive : (evenSpline values x).activeIndex x = i + 1) :
    (evenSpline values x).segment x =
      .spline (evenNode .catmullRom values i) (evenNode .catmullRom values (i + 1))
        (evenNode .catmullRom values (i + 2)) (evenNode .catmullRom values (i + 3)) := by
  have hnode (j : ℕ) (hj : j < (evenSpline values x).nodes.length) :
      (evenSpline values x).nodes[j] = evenNode .catmullRom values j :=
    getElem_spread .catmullRom hj
  have hlast : (evenSpline values x).activeIndex x + 2 < (evenSpline values x).nodes.length := by
    rw [hactive, evenSpline, length_spread]
    omega
  rw [segment_catmullRom rfl (by omega) hlast]
  simp only [hactive, hnode, Nat.add_sub_cancel]

/-- A spline is the Hermite segment at its active node, with slopes from the nodes around it. -/
theorem spline_of_active (hi : i < values.length - 3)
    (hactive : (evenSpline values x).activeIndex x = i + 1) :
    spline values x = hermite (values.getD (i + 1) 0)
      ((values.getD (i + 2) 0 - values.getD i 0) / 2) (values.getD (i + 2) 0)
      ((values.getD (i + 3) 0 - values.getD (i + 1) 0) / 2)
      (between (evenNode .catmullRom values (i + 1)) (evenNode .catmullRom values (i + 2)) x) := by
  have hnodes : (evenSpline values x).nodes ≠ [] := by
    rw [← List.length_pos_iff, evenSpline, length_spread]
    omega
  have hinput : (evenSpline values x).input / (evenSpline values x).range = x := div_one x
  rw [spline_eq, run_evaluateWith hnodes one_ne_zero, hinput, segment_evenSpline hi hactive]
  simp only [Segment.value, pure_bind, Id.run_pure, catmullRom_eq_hermite]
  rfl

/-- The knot in which one step ends and the next one starts. -/
def splineKnot (values : List α) (i : ℕ) : Knot α :=
  let steps := ((values.length - 3 : ℕ) : α)
  ⟨i / steps, values.getD (i + 1) 0, (values.getD (i + 2) 0 - values.getD i 0) / 2 * steps⟩

/-- On its step the spline runs on the cubic from knot to knot. -/
theorem spline_on_step (hcount : 4 ≤ values.length) (hi : i < values.length - 3)
    (hx : x ∈ Set.Ico (splineKnot values i).time (splineKnot values (i + 1)).time) :
    spline values x = (cubic (splineKnot values i) (splineKnot values (i + 1))).eval x := by
  have hactive := activeIndex_evenSpline (x := x) hcount hi hx.1 fun _ => hx.2
  have hstart : (evenNode .catmullRom values (i + 1)).time = (splineKnot values i).time :=
    evenTime_succ hcount i
  have hstop : (evenNode .catmullRom values (i + 2)).time = (splineKnot values (i + 1)).time :=
    evenTime_succ hcount (i + 1)
  have hsteps : ((values.length - 3 : ℕ) : α) ≠ 0 := Nat.cast_ne_zero.2 (by omega)
  have hspan : (splineKnot values (i + 1)).time - (splineKnot values i).time =
      1 / ((values.length - 3 : ℕ) : α) := by
    simp only [splineKnot, Nat.cast_add, Nat.cast_one, ← sub_div, add_sub_cancel_left]
  have hscale (slope : α) :
      1 / ((values.length - 3 : ℕ) : α) * (slope * ((values.length - 3 : ℕ) : α)) = slope := by
    field_simp
  rw [spline_of_active hi hactive, between_eq (hstart ▸ hstop ▸ hx.1.trans_lt hx.2)
    (hstart ▸ hx.1) (hstop ▸ hx.2.le), eval_cubic, hstart, hstop, hspan]
  simp only [splineKnot, hscale]

theorem time_splineKnot_lt (hcount : 4 ≤ values.length) (hij : i < j) :
    (splineKnot values i).time < (splineKnot values j).time :=
  div_lt_div_of_pos_right (Nat.cast_lt.2 hij) (Nat.cast_pos.2 (by omega))

/-- At each knot but the last one the spline has the value of the knot. -/
theorem spline_at_knot (hcount : 4 ≤ values.length) (hi : i < values.length - 3) :
    spline values (splineKnot values i).time = values.getD (i + 1) 0 := by
  have hstep := time_splineKnot_lt hcount (Nat.lt_succ_self i)
  rw [spline_on_step hcount hi ⟨le_rfl, hstep⟩]
  exact (isCubic_cubic hstep.ne).eval_start

/-- Before its range a spline keeps the value of its second node. -/
theorem spline_before (hcount : 4 ≤ values.length) (hx : x ≤ 0) :
    spline values x = values.getD 1 0 := by
  have hfirst : (evenNode .catmullRom values 1).time = (0 : α) :=
    (evenTime_succ hcount 0).trans (by rw [Nat.cast_zero, zero_div])
  have hactive : (evenSpline values x).activeIndex x = 0 + 1 := by
    obtain hbefore | rfl := hx.lt_or_eq
    · refine activeIndex_of_before fun first hmem => ?_
      rw [List.head?_eq_getElem?] at hmem
      obtain ⟨hbound, rfl⟩ := List.getElem?_eq_some_iff.1 hmem
      rw [getElem_visibleNodes hcount, Nat.cast_zero, zero_div]
      exact hbefore
    · refine activeIndex_evenSpline hcount (by omega) (by simp) fun _ => ?_
      exact div_pos (Nat.cast_pos.2 (by omega)) (Nat.cast_pos.2 (by omega))
  rw [spline_of_active (by omega) hactive,
    between_eq_zero (evenTime_le .catmullRom values.length (by omega)) (hx.trans_eq hfirst.symm),
    hermite_zero]

/-- Behind its range a spline keeps the value of the last node but one. -/
theorem spline_after (hcount : 4 ≤ values.length) (hx : 1 ≤ x) :
    spline values x = values.getD (values.length - 2) 0 := by
  obtain ⟨last, hlast⟩ : ∃ last, values.length = last + 4 := ⟨values.length - 4, by omega⟩
  have hsteps : ((last + 1 : ℕ) : α) = ((values.length - 3 : ℕ) : α) := by congr; omega
  have hpos : (0 : α) < ((values.length - 3 : ℕ) : α) := Nat.cast_pos.2 (by omega)
  have hstart : (evenNode .catmullRom values (last + 1)).time =
      (last : α) / ((values.length - 3 : ℕ) : α) := evenTime_succ hcount last
  have hstop : (evenNode .catmullRom values (last + 2)).time = (1 : α) :=
    (evenTime_succ hcount (last + 1)).trans (hsteps ▸ div_self (hsteps ▸ hpos.ne'))
  have hway : (last : α) / ((values.length - 3 : ℕ) : α) < 1 :=
    (div_lt_one hpos).2 (hsteps ▸ Nat.cast_lt.2 (Nat.lt_succ_self last))
  have hactive : (evenSpline values x).activeIndex x = last + 1 :=
    activeIndex_evenSpline hcount (by omega) (hway.le.trans hx) (by omega)
  rw [spline_of_active (by omega) hactive,
    between_eq_one (hstart ▸ hstop ▸ hway) (hstop ▸ hx), hermite_one, hlast]
  rfl

end Spread

/-! ### Smoothness -/

section Smooth

variable [NontriviallyNormedField α] [LinearOrder α] [IsStrictOrderedRing α] [OrderTopology α]
  {values : List α}

/-- Inside of a step the spline is one cubic, and at a knot two of them meet. -/
theorem contDiffAt_spline (hcount : 4 ≤ values.length) {x : α} (hx : x ∈ Set.Ioo 0 1) :
    ContDiffAt α 1 (spline values) x := by
  obtain ⟨i, hi, hreached, hbehind⟩ := exists_activeIndex hcount hx.1.le
  have hafter : x < (splineKnot values (i + 1)).time := by
    by_cases hnext : i + 1 < values.length - 3
    · exact hbehind hnext
    · have hlast : i + 1 = values.length - 3 := by omega
      have hone : (splineKnot values (i + 1)).time = 1 := by
        rw [splineKnot, hlast]
        exact div_self (Nat.cast_ne_zero.2 (by omega))
      exact hone ▸ hx.2
  obtain hinside | hknot := hreached.lt_or_eq
  · exact contDiffAt_of_mem_Ioo ⟨hinside, hafter⟩ fun y hy => spline_on_step hcount hi hy
  · obtain ⟨i, rfl⟩ : ∃ before, i = before + 1 := by
      refine Nat.exists_eq_add_one_of_ne_zero ?_
      rintro rfl
      exact hx.1.ne (by simpa using hknot)
    have hbefore := time_splineKnot_lt hcount (Nat.lt_succ_self i)
    have hbehind := time_splineKnot_lt hcount (Nat.lt_succ_self (i + 1))
    rw [← hknot]
    exact contDiffAt_of_knot hbefore hbehind
      (fun y hy => spline_on_step hcount (by omega) hy) fun y hy => spline_on_step hcount hi hy

/-- The spline of a list of at least four values takes them one after the other, but for the first
and the last one, while its input goes from zero to one in even steps, it rests outside, and it is
smooth in between. -/
theorem spline_passes_through_values (hcount : 4 ≤ values.length) :
    (∀ i ≤ values.length - 3,
        values[i + 1]? = some (spline values (i / ((values.length - 3 : ℕ) : α)))) ∧
      (∀ x ≤ 0, values[1]? = some (spline values x)) ∧
      (∀ x ≥ 1, values[values.length - 2]? = some (spline values x)) ∧
      ContDiffOn α 1 (spline values) (Set.Ioo 0 1) := by
  have hvalue {i : ℕ} (hi : i < values.length) : values[i]? = some (values.getD i 0) := by
    simp [hi]
  refine ⟨fun i hi => ?_, fun x hx => ?_, fun x hx => ?_, fun x hx =>
    (contDiffAt_spline hcount hx).contDiffWithinAt⟩
  · obtain hless | rfl := hi.lt_or_eq
    · rw [hvalue (by omega)]
      exact congrArg some (spline_at_knot hcount hless).symm
    · have hone : ((values.length - 3 : ℕ) : α) / ((values.length - 3 : ℕ) : α) = 1 :=
        div_self (Nat.cast_ne_zero.2 (by omega))
      have hlast : values.length - 3 + 1 = values.length - 2 := by omega
      rw [hone, spline_after hcount le_rfl, hlast, hvalue (by omega)]
  · rw [spline_before hcount hx, hvalue (by omega)]
  · rw [spline_after hcount hx, hvalue (by omega)]

end Smooth

/-- Three of five values are passed, the middle one at a joint. -/
theorem spline_passes_through_values_five :
    let values : List ℚ := [0, 1, 4, 2, 7]
    4 ≤ values.length ∧ spline values (1 / 2) = 4 ∧ spline values (-3) = 1 ∧ spline values 2 = 2 ∧
      ContDiffOn ℚ 1 (spline values) (Set.Ioo 0 1) := by
  intro values
  have hcount : 4 ≤ values.length := by decide
  obtain ⟨hsteps, hbefore, hafter, hsmooth⟩ := spline_passes_through_values hcount
  have hmiddle : some (4 : ℚ) = some (spline values ((1 : ℕ) / (2 : ℕ))) := hsteps 1 (by decide)
  rw [Nat.cast_one, Nat.cast_ofNat, Option.some.injEq] at hmiddle
  exact ⟨hcount, hmiddle.symm, (Option.some.inj (hbefore (-3) (by decide))).symm,
    (Option.some.inj (hafter 2 (by decide))).symm, hsmooth⟩

end Curve

end MotionScript
