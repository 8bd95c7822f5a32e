import Mathlib
import MotionScript.Blend
/-!
# Cubics between knots

The cubics of the blending formulas are all the same one, told by other numbers: the cubic with
given values and slopes at its two ends.  A polynomial of degree three is determined by them, and
where one cubic ends in the knot in which the next one starts, the two of them join smoothly.
-/

namespace MotionScript

open Polynomial

/-! ### One cubic in three forms -/

section Formulas

variable {α : Type} [Field α]

theorem hermite_zero (p₀ m₀ p₁ m₁ : α) : hermite p₀ m₀ p₁ m₁ 0 = p₀ := by
  simp [hermite]

theorem hermite_one (p₀ m₀ p₁ m₁ : α) : hermite p₀ m₀ p₁ m₁ 1 = p₁ := by
  simp only [hermite, Nat.cast_one, Nat.cast_ofNat]
  ring

/-- With the difference of its values for both slopes the cubic is straight. -/
theorem hermite_difference (p₀ p₁ t : α) :
    hermite p₀ (p₁ - p₀) p₁ (p₁ - p₀) t = lerp p₀ p₁ t := by
  simp only [hermite, lerp, Nat.cast_one, Nat.cast_ofNat]
  ring

theorem bezier_eq_hermite (p₀ p₁ p₂ p₃ t : α) :
    bezier p₀ p₁ p₂ p₃ t = hermite p₀ (3 * (p₁ - p₀)) p₃ (3 * (p₃ - p₂)) t := by
  simp only [bezier, hermite, Nat.cast_one, Nat.cast_ofNat]
  ring

theorem catmullRom_eq_hermite [CharZero α] (p₀ p₁ p₂ p₃ t : α) :
    catmullRom p₀ p₁ p₂ p₃ t = hermite p₁ ((p₂ - p₀) / 2) p₂ ((p₃ - p₁) / 2) t := by
  simp only [catmullRom, hermite, Nat.cast_one, Nat.cast_ofNat]
  ring

end Formulas

/-! ### The cubic between two knots -/

/-- A point that a curve runs through with a slope. -/
structure Knot (α : Type) where
  time : α
  value : α
  slope : α

section Polynomials

variable {α : Type} [Field α] {start stop : Knot α} {p q : α[X]}

/-- A polynomial of degree three at most that runs through two knots. -/
structure IsCubic (start stop : Knot α) (p : α[X]) : Prop where
  natDegree_le : p.natDegree ≤ 3
  eval_start : p.eval start.time = start.value
  slope_start : p.derivative.eval start.time = start.slope
  eval_stop : p.eval stop.time = stop.value
  slope_stop : p.derivative.eval stop.time = stop.slope

/-- The blending formula over the polynomials.  It works in progress from knot to knot, so the
slopes are scaled by the span. -/
noncomputable def cubic (start stop : Knot α) : α[X] :=
  let span := stop.time - start.time
  hermite (C start.value) (C (span * start.slope)) (C stop.value) (C (span * stop.slope))
    (C span⁻¹ * (X - C start.time))

theorem eval_cubic (start stop : Knot α) (x : α) :
    (cubic start stop).eval x =
      hermite start.value ((stop.time - start.time) * start.slope) stop.value
        ((stop.time - start.time) * stop.slope)
        ((x - start.time) / (stop.time - start.time)) := by
  simp [cubic, hermite, div_eq_inv_mul]

/-- The slope of the cubic between two knots, written in the progress between them. -/
theorem eval_derivative_cubic (hspan : start.time ≠ stop.time) (x : α) :
    (cubic start stop).derivative.eval x =
      let u := (x - start.time) / (stop.time - start.time)
      6 * (u - u ^ 2) * ((stop.value - start.value) / (stop.time - start.time)) +
        (1 - 4 * u + 3 * u ^ 2) * start.slope + (3 * u ^ 2 - 2 * u) * stop.slope := by
  have hspan : stop.time - start.time ≠ 0 := sub_ne_zero.2 hspan.symm
  simp only [cubic, hermite, Nat.cast_one, Nat.cast_ofNat, derivative_add, derivative_sub,
    derivative_neg, derivative_mul, derivative_C, derivative_X, derivative_one, derivative_ofNat,
    eval_add, eval_sub, eval_neg, eval_mul, eval_C, eval_X, eval_one, eval_zero, eval_ofNat]
  field_simp
  ring

/-- The cubic between two knots has their values and slopes, so by uniqueness it is the only one. -/
theorem isCubic_cubic (hspan : start.time ≠ stop.time) :
    IsCubic start stop (cubic start stop) where
  natDegree_le := by
    simp only [cubic, hermite, Nat.cast_one, Nat.cast_ofNat]
    compute_degree
  eval_start := by rw [eval_cubic, sub_self, zero_div, hermite_zero]
  slope_start := by
    rw [eval_derivative_cubic hspan, sub_self, zero_div]
    ring
  eval_stop := by rw [eval_cubic, div_self (sub_ne_zero.2 hspan.symm), hermite_one]
  slope_stop := by
    rw [eval_derivative_cubic hspan, div_self (sub_ne_zero.2 hspan.symm)]
    ring

/-- Polynomials that agree in value and slope at a point differ by a double root. -/
theorem sq_dvd_sub {s : α} (hvalue : p.eval s = q.eval s)
    (hslope : p.derivative.eval s = q.derivative.eval s) : (X - C s) ^ 2 ∣ p - q := by
  by_cases hzero : p - q = 0
  · exact hzero ▸ dvd_zero _
  · have hroot : (p - q).IsRoot s := by rw [IsRoot.def, eval_sub, hvalue, sub_self]
    have hroot' : (p - q).derivative.IsRoot s := by
      rw [IsRoot.def, derivative_sub, eval_sub, hslope, sub_self]
    exact (le_rootMultiplicity_iff hzero).1
      ((one_lt_rootMultiplicity_iff_isRoot hzero).2 ⟨hroot, hroot'⟩)

/-- The difference of two cubics through the same knots has two double roots, and no degree for
them. -/
theorem IsCubic.unique (hspan : start.time ≠ stop.time) (hp : IsCubic start stop p)
    (hq : IsCubic start stop q) : p = q := by
  have hstart : (X - C start.time) ^ 2 ∣ p - q :=
    sq_dvd_sub (hp.eval_start.trans hq.eval_start.symm) (hp.slope_start.trans hq.slope_start.symm)
  have hstop : (X - C stop.time) ^ 2 ∣ p - q :=
    sq_dvd_sub (hp.eval_stop.trans hq.eval_stop.symm) (hp.slope_stop.trans hq.slope_stop.symm)
  have hcoprime : IsCoprime ((X - C start.time) ^ 2) ((X - C stop.time) ^ 2) :=
    (isCoprime_X_sub_C_of_isUnit_sub (sub_ne_zero.2 hspan).isUnit).pow
  have hdegree :
      (p - q).natDegree < ((X - C start.time) ^ 2 * (X - C stop.time) ^ 2).natDegree := by
    have hle : (p - q).natDegree ≤ 3 :=
      (natDegree_sub_le p q).trans (max_le hp.natDegree_le hq.natDegree_le)
    have hfour : ((X - C start.time) ^ 2 * (X - C stop.time) ^ 2).natDegree = 4 := by
      compute_degree!
    omega
  exact sub_eq_zero.1 (eq_zero_of_dvd_of_natDegree_lt (hcoprime.mul_dvd hstart hstop) hdegree)

theorem isCubic_iff (hspan : start.time ≠ stop.time) :
    IsCubic start stop p ↔ p = cubic start stop :=
  ⟨fun hp => hp.unique hspan (isCubic_cubic hspan), fun hp => hp ▸ isCubic_cubic hspan⟩

end Polynomials

/-! ### Smooth joints -/

section Joints

variable {α : Type} [NontriviallyNormedField α] [LinearOrder α] [OrderTopology α]
variable {p q : α[X]} {s : α}

/-- The function that follows one polynomial up to a point and another one from there on. -/
def joined (s : α) (p q : α[X]) (x : α) : α :=
  if s ≤ x then q.eval x else p.eval x

omit [OrderTopology α] in
theorem joined_of_lt {x : α} (hx : x < s) : joined s p q x = p.eval x :=
  if_neg hx.not_ge

omit [OrderTopology α] in
theorem joined_of_ge {x : α} (hx : s ≤ x) : joined s p q x = q.eval x :=
  if_pos hx

omit [OrderTopology α] in
/-- At the joint itself the first polynomial counts as well if both have the same value there. -/
theorem joined_of_le {x : α} (hvalue : p.eval s = q.eval s) (hx : x ≤ s) :
    joined s p q x = p.eval x := by
  obtain hless | rfl := hx.lt_or_eq
  · exact joined_of_lt hless
  · rw [joined_of_ge le_rfl, hvalue]

/-- Two polynomials joined where their values and slopes agree have a derivative at the seam too. -/
theorem hasDerivAt_joined (hvalue : p.eval s = q.eval s)
    (hslope : p.derivative.eval s = q.derivative.eval s) (x : α) :
    HasDerivAt (joined s p q) (joined s p.derivative q.derivative x) x := by
  obtain hless | rfl | hgreater := lt_trichotomy x s
  · rw [joined_of_lt hless]
    exact (p.hasDerivAt x).congr_of_eventuallyEq
      (Filter.eventually_of_mem (Iio_mem_nhds hless) fun _ => joined_of_lt)
  · have hbefore : HasDerivWithinAt (joined x p q) (p.derivative.eval x) (Set.Iic x) x :=
      (p.hasDerivAt x).hasDerivWithinAt.congr (fun _ => joined_of_le hvalue)
        (joined_of_le hvalue le_rfl)
    have hafter : HasDerivWithinAt (joined x p q) (p.derivative.eval x) (Set.Ici x) x :=
      hslope ▸ (q.hasDerivAt x).hasDerivWithinAt.congr (fun _ => joined_of_ge) (joined_of_ge le_rfl)
    rw [joined_of_le hslope le_rfl, ← hasDerivWithinAt_univ, ← Set.Iic_union_Ici]
    exact hbefore.union hafter
  · rw [joined_of_ge hgreater.le]
    exact (q.hasDerivAt x).congr_of_eventuallyEq
      (Filter.eventually_of_mem (Ioi_mem_nhds hgreater) fun _ hy => joined_of_ge (le_of_lt hy))

/-- Two polynomials joined where their values and slopes agree are continuously differentiable. -/
theorem contDiff_joined (hvalue : p.eval s = q.eval s)
    (hslope : p.derivative.eval s = q.derivative.eval s) : ContDiff α 1 (joined s p q) := by
  have hderiv := hasDerivAt_joined hvalue hslope
  have hcontinuous : Continuous (joined s p.derivative q.derivative) :=
    Continuous.if_le q.derivative.continuous p.derivative.continuous continuous_const continuous_id
      fun x hx => hx ▸ hslope.symm
  rw [contDiff_one_iff_deriv, funext fun x => (hderiv x).deriv]
  exact ⟨fun x => (hderiv x).differentiableAt, hcontinuous⟩

/-- A function that follows one polynomial before a point and another one from there on is
continuously differentiable at the point if both have one value and one slope there. -/
theorem contDiffAt_of_joint {f : α → α} {r t : α} (hrs : r < s) (hst : s < t)
    (hbefore : ∀ x ∈ Set.Ico r s, f x = p.eval x) (hafter : ∀ x ∈ Set.Ico s t, f x = q.eval x)
    (hvalue : p.eval s = q.eval s) (hslope : p.derivative.eval s = q.derivative.eval s) :
    ContDiffAt α 1 f s := by
  refine (contDiff_joined hvalue hslope).contDiffAt.congr_of_eventuallyEq ?_
  filter_upwards [Ioo_mem_nhds hrs hst] with x hx
  obtain hless | hreached := lt_or_ge x s
  · rw [hbefore x ⟨hx.1.le, hless⟩, joined_of_lt hless]
  · rw [hafter x ⟨hreached, hx.2⟩, joined_of_ge hreached]

/-- Cubics that meet in a knot join smoothly. -/
theorem contDiffAt_of_knot {f : α → α} {before knot after : Knot α}
    (hbefore : before.time < knot.time) (hafter : knot.time < after.time)
    (hfirst : ∀ x ∈ Set.Ico before.time knot.time, f x = (cubic before knot).eval x)
    (hsecond : ∀ x ∈ Set.Ico knot.time after.time, f x = (cubic knot after).eval x) :
    ContDiffAt α 1 f knot.time := by
  have hp := isCubic_cubic hbefore.ne
  have hq := isCubic_cubic hafter.ne
  exact contDiffAt_of_joint hbefore hafter hfirst hsecond (hp.eval_stop.trans hq.eval_start.symm)
    (hp.slope_stop.trans hq.slope_start.symm)

/-- Between its knots a cubic is smooth. -/
theorem contDiffAt_of_mem_Ioo {f : α → α} {start stop : Knot α} {x : α}
    (hx : x ∈ Set.Ioo start.time stop.time)
    (hcubic : ∀ y ∈ Set.Ico start.time stop.time, f y = (cubic start stop).eval y) :
    ContDiffAt α 1 f x :=
  contDiffAt_of_joint hx.1 hx.2 (fun y hy => hcubic y ⟨hy.1, hy.2.trans hx.2⟩)
    (fun y hy => hcubic y ⟨hx.1.le.trans hy.1, hy.2⟩) rfl rfl

end Joints

end MotionScript
