import MotionScript.Keyframe
import MotionScript.Proofs.Blend.Cubic
import MotionScript.Proofs.Ease.Power
/-!
# Segments between keyframes

In exact arithmetic a segment that moves at all leaves the value of its first key and reaches the
value of the second one, whatever formula it follows and whichever keys stand around the two.  Where
tangents are given they are its slopes at the keys, counted per unit of progress, and a chord for
each tangent makes it straight.
-/

namespace MotionScript

namespace Keyframe

variable {α : Type}

/-! ### Values at the keys -/

section Values

variable [Field α] [LinearOrder α] [IsStrictOrderedRing α] [Elementary α]
  {before start stop after : Keyframe α}

/-- Of the segments that move, those that follow a cubic differ in its slopes only. -/
theorem segment_cases (hmoves : start.transition ≠ .step) (before stop after : Keyframe α) :
    (∃ leaving reaching : (Triple α → α) → α, segment before start stop after = fun u =>
        .ofComponents fun component =>
          hermite (component start.value) (leaving component) (component stop.value)
            (reaching component) u) ∨
      ∃ easing, segment before start stop after = easedSegment easing start stop := by
  cases htransition : start.transition with
  | step => exact absurd htransition hmoves
  | catmullRom =>
      refine .inl ⟨fun component => (component stop.value - component before.value) / 2,
        fun component => (component after.value - component start.value) / 2, ?_⟩
      funext u
      simp only [segment, htransition, splineSegment, catmullRom_eq_hermite]
  | bezier =>
      refine .inl ⟨fun component => 3 * (component (start.post.getD start.value) -
          component start.value),
        fun component => 3 * (component stop.value - component (stop.pre.getD stop.value)), ?_⟩
      funext u
      simp only [segment, htransition, controlSegment, bezier_eq_hermite]
  | ease easing =>
      by_cases htangent : start.post.isSome || stop.pre.isSome
      · refine .inl ⟨fun component => component (start.post.getD (start.chord stop)),
          fun component => component (stop.pre.getD (start.chord stop)), ?_⟩
        funext u
        simp only [segment, htransition, if_pos htangent, tangentSegment]
      · refine .inr ⟨easing, ?_⟩
        funext u
        simp only [segment, htransition, if_neg htangent]

/-- A segment that moves starts at the value of its first key. -/
theorem segment_zero (hmoves : start.transition ≠ .step) :
    segment before start stop after 0 = start.value := by
  obtain ⟨leaving, reaching, hcubic⟩ | ⟨easing, heased⟩ := segment_cases hmoves before stop after
  · simp only [hcubic, hermite_zero]
    rfl
  · simp only [heased, easedSegment, Ease.apply_zero, lerp_zero]
    rfl

/-- A segment that moves ends at the value of its second key. -/
theorem segment_one (hmoves : start.transition ≠ .step) :
    segment before start stop after 1 = stop.value := by
  obtain ⟨leaving, reaching, hcubic⟩ | ⟨easing, heased⟩ := segment_cases hmoves before stop after
  · simp only [hcubic, hermite_one]
    rfl
  · simp only [heased, easedSegment, Ease.apply_one, lerp_one]
    rfl

end Values

/-! ### Tangents -/

/-- Whether the segment between two keys is eased and has a tangent, which takes the place of the
easing. -/
def HasTangent (start stop : Keyframe α) : Prop :=
  (∃ easing, start.transition = .ease easing) ∧ (start.post.isSome ∨ stop.pre.isSome)

section Tangents

variable [Field α] {start stop : Keyframe α}

/-- The straight blend of the values of two keys. -/
def blend (start stop : Keyframe α) (u : α) : Triple α :=
  .ofComponents fun component => lerp (component start.value) (component stop.value) u

/-- What a component leaves the first key with; its slope is the tangent, or the chord instead. -/
def startKnot (start stop : Keyframe α) (component : Triple α → α) : Knot α :=
  ⟨0, component start.value, component (start.post.getD (start.chord stop))⟩

/-- What a component reaches the second key with. -/
def stopKnot (start stop : Keyframe α) (component : Triple α → α) : Knot α :=
  ⟨1, component stop.value, component (stop.pre.getD (start.chord stop))⟩

theorem tangentSegment_eq_blend (hpost : start.post.getD (start.chord stop) = start.chord stop)
    (hpre : stop.pre.getD (start.chord stop) = start.chord stop) (u : α) :
    tangentSegment start stop u = blend start stop u := by
  rw [tangentSegment, hpost, hpre, blend]
  simp only [Triple.ofComponents, chord, hermite_difference]

/-- The span of the progress is one, so the slopes stay as they are. -/
theorem component_tangentSegment {component : Triple α → α}
    (hcomponent : component ∈ Triple.components) (u : α) :
    component (tangentSegment start stop u) =
      (cubic (startKnot start stop component) (stopKnot start stop component)).eval u := by
  rw [tangentSegment, Triple.component_ofComponents hcomponent, eval_cubic]
  simp only [startKnot, stopKnot, sub_zero, one_mul, div_one]

variable [LinearOrder α] [Elementary α]

theorem segment_of_hasTangent (htangent : start.HasTangent stop) (before after : Keyframe α) :
    segment before start stop after = tangentSegment start stop := by
  obtain ⟨⟨easing, htransition⟩, hsome⟩ := htangent
  funext u
  simp only [segment, htransition, Bool.or_eq_true, if_pos hsome]

end Tangents

section Slopes

variable [NontriviallyNormedField α] {start stop : Keyframe α} {component : Triple α → α}

theorem hasDerivAt_tangentSegment (hcomponent : component ∈ Triple.components) (u : α) :
    HasDerivAt (fun u => component (tangentSegment start stop u))
      ((cubic (startKnot start stop component)
        (stopKnot start stop component)).derivative.eval u) u := by
  simp only [component_tangentSegment hcomponent]
  exact Polynomial.hasDerivAt _ u

/-- What is expected of the way from one key to the next one, as a function of the progress. -/
structure MeetsKeys (start stop : Keyframe α) (way : α → Triple α) : Prop where
  start_value : start.transition ≠ .step → way 0 = start.value
  stop_value : start.transition ≠ .step → way 1 = stop.value
  start_slope : start.HasTangent stop → ∀ component ∈ Triple.components,
    HasDerivAt (fun u => component (way u)) (component (start.post.getD (start.chord stop))) 0
  stop_slope : start.HasTangent stop → ∀ component ∈ Triple.components,
    HasDerivAt (fun u => component (way u)) (component (stop.pre.getD (start.chord stop))) 1
  straight : start.HasTangent stop → start.post.getD (start.chord stop) = start.chord stop →
    stop.pre.getD (start.chord stop) = start.chord stop → ∀ u, way u = start.blend stop u

/-- Every segment meets its keys. -/
theorem segment_meets_keys [LinearOrder α] [IsStrictOrderedRing α] [Elementary α]
    (before start stop after : Keyframe α) :
    MeetsKeys start stop (segment before start stop after) where
  start_value := segment_zero
  stop_value := segment_one
  start_slope htangent component hcomponent := by
    have hcubic : IsCubic (startKnot start stop component) (stopKnot start stop component) _ :=
      isCubic_cubic zero_ne_one
    rw [segment_of_hasTangent htangent]
    exact (hasDerivAt_tangentSegment hcomponent 0).congr_deriv hcubic.slope_start
  stop_slope htangent component hcomponent := by
    have hcubic : IsCubic (startKnot start stop component) (stopKnot start stop component) _ :=
      isCubic_cubic zero_ne_one
    rw [segment_of_hasTangent htangent]
    exact (hasDerivAt_tangentSegment hcomponent 1).congr_deriv hcubic.slope_stop
  straight htangent hpost hpre u := by
    rw [segment_of_hasTangent htangent]
    exact tangentSegment_eq_blend hpost hpre u

end Slopes

/-- One tangent, which is not the chord: it is the slope at the first key, and the chord is the one
at the second key. -/
theorem segment_meets_keys_one_tangent :
    let start : Keyframe ℝ := ⟨0, ⟨1, 2, 3⟩, .ease (.bend .expo .easeIn), none, some ⟨9, 0, -3⟩⟩
    let stop : Keyframe ℝ := ⟨4, ⟨5, 2, 1⟩, .step, none, none⟩
    let way := segment start start stop stop
    start.HasTangent stop ∧ way 0 = ⟨1, 2, 3⟩ ∧ way 1 = ⟨5, 2, 1⟩ ∧
      HasDerivAt (fun u => (way u).x) 9 0 ∧ HasDerivAt (fun u => (way u).x) 4 1 := by
  intro start stop way
  have hmeets : MeetsKeys start stop way := segment_meets_keys start start stop stop
  have htangent : start.HasTangent stop := ⟨⟨_, rfl⟩, .inl rfl⟩
  have hfirst : Triple.x ∈ (Triple.components : List (Triple ℝ → ℝ)) := List.mem_cons_self
  refine ⟨htangent, hmeets.start_value nofun, hmeets.stop_value nofun,
    hmeets.start_slope htangent _ hfirst, (hmeets.stop_slope htangent _ hfirst).congr_deriv ?_⟩
  change (5 : ℝ) - 1 = 4
  norm_num

end Keyframe

end MotionScript
