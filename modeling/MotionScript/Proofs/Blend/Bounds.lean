import MotionScript.Blend
import MotionScript.Proofs.Number.Arithmetic
/-!
# Bounds of blends

A blend of single precision numbers is finite if its numbers are so small that no step of the
formula can exceed the format.  Progress is a number wherever the way between two moments is finite,
and limited to the unit interval it adds nothing to the size of a blend.
-/

namespace MotionScript.Single

variable {limit tLimit : Nat} {a b p₀ p₁ p₂ p₃ t : Float32}

/-! ### Formulas -/

/-- A point on the way between two numbers needs two bits more than they do. -/
theorem within_lerp (ha : Within limit a) (hb : Within limit b) (ht : Within 0 t)
    (hlimit : limit + 2 ≤ 127) : Within (limit + 2) (lerp a b t) := by
  have hdifference : Within (limit + 1) (b - a) := hb.sub ha (by omega) (by omega) (by omega)
  have hway : Within (limit + 1) ((b - a) * t) := hdifference.mul ht (by omega) (by omega)
  exact ha.add hway (by omega) (by omega) hlimit

/-- A cubic in the Bernstein basis is of the third degree in its progress. -/
theorem within_bezier (h₀ : Within limit p₀) (h₁ : Within limit p₁) (h₂ : Within limit p₂)
    (h₃ : Within limit p₃) (ht : Within tLimit t) (hlimit : limit + 3 * tLimit + 7 ≤ 127) :
    Within (limit + 3 * tLimit + 7) (bezier p₀ p₁ p₂ p₃ t) := by
  have hone : Within 0 ((1 : Nat) : Float32) :=
    within_of_level (by decide) (by decide) (by decide)
  have hthree : Within 2 ((3 : Nat) : Float32) :=
    within_of_level (by decide) (by decide) (by decide)
  have hs : Within (tLimit + 1) (((1 : Nat) : Float32) - t) :=
    hone.sub ht (by omega) (by omega) (by omega)
  rw [bezier]
  generalize ((1 : Nat) : Float32) - t = s at hs ⊢
  have hfirst : Within (limit + 3 * tLimit + 3) (s * s * s * p₀) := by
    have hss : Within (2 * tLimit + 2) (s * s) := hs.mul hs (by omega) (by omega)
    have hsss : Within (3 * tLimit + 3) (s * s * s) := hss.mul hs (by omega) (by omega)
    exact hsss.mul h₀ (by omega) (by omega)
  have hthreeS : Within (tLimit + 3) (((3 : Nat) : Float32) * s) :=
    hthree.mul hs (by omega) (by omega)
  have hsecond : Within (limit + 3 * tLimit + 4) (((3 : Nat) : Float32) * s * s * t * p₁) := by
    have hss : Within (2 * tLimit + 4) (((3 : Nat) : Float32) * s * s) :=
      hthreeS.mul hs (by omega) (by omega)
    have hsst : Within (3 * tLimit + 4) (((3 : Nat) : Float32) * s * s * t) :=
      hss.mul ht (by omega) (by omega)
    exact hsst.mul h₁ (by omega) (by omega)
  have hthird : Within (limit + 3 * tLimit + 3) (((3 : Nat) : Float32) * s * t * t * p₂) := by
    have hst : Within (2 * tLimit + 3) (((3 : Nat) : Float32) * s * t) :=
      hthreeS.mul ht (by omega) (by omega)
    have hstt : Within (3 * tLimit + 3) (((3 : Nat) : Float32) * s * t * t) :=
      hst.mul ht (by omega) (by omega)
    exact hstt.mul h₂ (by omega) (by omega)
  have hfourth : Within (limit + 3 * tLimit) (t * t * t * p₃) := by
    have htt : Within (2 * tLimit) (t * t) := ht.mul ht (by omega) (by omega)
    have httt : Within (3 * tLimit) (t * t * t) := htt.mul ht (by omega) (by omega)
    exact httt.mul h₃ (by omega) (by omega)
  have htwo : Within (limit + 3 * tLimit + 5) _ :=
    hfirst.add hsecond (by omega) (by omega) (by omega)
  have hmost : Within (limit + 3 * tLimit + 6) _ :=
    htwo.add hthird (by omega) (by omega) (by omega)
  exact hmost.add hfourth (by omega) (by omega) hlimit

/-- A cubic through its second and third number needs eight bits more than its numbers do. -/
theorem within_catmullRom (h₀ : Within limit p₀) (h₁ : Within limit p₁) (h₂ : Within limit p₂)
    (h₃ : Within limit p₃) (ht : Within 0 t) (hlimit : limit + 8 ≤ 127) :
    Within (limit + 8) (catmullRom p₀ p₁ p₂ p₃ t) := by
  have htwo : Within 1 ((2 : Nat) : Float32) :=
    within_of_level (by decide) (by decide) (by decide)
  have hthree : Within 2 ((3 : Nat) : Float32) :=
    within_of_level (by decide) (by decide) (by decide)
  have hfour : Within 2 ((4 : Nat) : Float32) :=
    within_of_level (by decide) (by decide) (by decide)
  have hfive : Within 3 ((5 : Nat) : Float32) :=
    within_of_level (by decide) (by decide) (by decide)
  have hhalf : Within 0 (((1 : Nat) : Float32) / ((2 : Nat) : Float32)) :=
    within_of_level (by decide) (by decide) (by decide)
  have hconstant : Within (limit + 1) (((2 : Nat) : Float32) * p₁) :=
    htwo.mul h₁ (by omega) (by omega)
  have hlinear : Within (limit + 1) ((-p₀ + p₂) * t) := by
    have hsum : Within (limit + 1) (-p₀ + p₂) := h₀.neg.add h₂ (by omega) (by omega) (by omega)
    exact hsum.mul ht (by omega) (by omega)
  have hsquare : Within (limit + 6) ((((2 : Nat) : Float32) * p₀ - ((5 : Nat) : Float32) * p₁ +
      ((4 : Nat) : Float32) * p₂ - p₃) * t * t) := by
    have h₀' : Within (limit + 1) (((2 : Nat) : Float32) * p₀) :=
      htwo.mul h₀ (by omega) (by omega)
    have h₁' : Within (limit + 3) (((5 : Nat) : Float32) * p₁) :=
      hfive.mul h₁ (by omega) (by omega)
    have h₂' : Within (limit + 2) (((4 : Nat) : Float32) * p₂) :=
      hfour.mul h₂ (by omega) (by omega)
    have hfirst : Within (limit + 4) _ := h₀'.sub h₁' (by omega) (by omega) (by omega)
    have hsecond : Within (limit + 5) _ := hfirst.add h₂' (by omega) (by omega) (by omega)
    have hthird : Within (limit + 6) _ := hsecond.sub h₃ (by omega) (by omega) (by omega)
    have hlinear : Within (limit + 6) _ := hthird.mul ht (by omega) (by omega)
    exact hlinear.mul ht (by omega) (by omega)
  have hcube : Within (limit + 5) ((-p₀ + ((3 : Nat) : Float32) * p₁ -
      ((3 : Nat) : Float32) * p₂ + p₃) * t * t * t) := by
    have h₁' : Within (limit + 2) (((3 : Nat) : Float32) * p₁) :=
      hthree.mul h₁ (by omega) (by omega)
    have h₂' : Within (limit + 2) (((3 : Nat) : Float32) * p₂) :=
      hthree.mul h₂ (by omega) (by omega)
    have hfirst : Within (limit + 3) _ := h₀.neg.add h₁' (by omega) (by omega) (by omega)
    have hsecond : Within (limit + 4) _ := hfirst.sub h₂' (by omega) (by omega) (by omega)
    have hthird : Within (limit + 5) _ := hsecond.add h₃ (by omega) (by omega) (by omega)
    have hlinear : Within (limit + 5) _ := hthird.mul ht (by omega) (by omega)
    have hsquare : Within (limit + 5) _ := hlinear.mul ht (by omega) (by omega)
    exact hsquare.mul ht (by omega) (by omega)
  have hstraight : Within (limit + 2) _ := hconstant.add hlinear (by omega) (by omega) (by omega)
  have hbent : Within (limit + 7) _ := hstraight.add hsquare (by omega) (by omega) (by omega)
  have hsum : Within (limit + 8) _ := hbent.add hcube (by omega) (by omega) hlimit
  exact hhalf.mul hsum (by omega) hlimit

/-! ### Progress -/

/-- Over a finite span the progress of a number is a number. -/
theorem isNaN_progress {start stop x : Float32} (hspan : (stop - start).isFinite = true)
    (hx : x.isNaN = false) : (progress start stop x).isNaN = false := by
  rw [progress]
  split
  · decide
  next hne =>
    have hstart : start.isFinite = true := isFinite_of_isFinite_sub hspan
    exact isNaN_div (isNaN_sub hx hstart) hspan (Bool.eq_false_iff.2 hne)

/-- What is clamped to the unit interval lies in it, unless it is not a number. -/
theorem within_unitClamp (ht : t.isNaN = false) : Within 0 (unitClamp t) := by
  have hzero : ((0 : Nat) : Float32).isNaN = false := by decide
  have hone : ((1 : Nat) : Float32).isNaN = false := by decide
  have hlevel₀ : level ((0 : Nat) : Float32) = 0 := by decide
  have hlevel₁ : level ((1 : Nat) : Float32) = 127 * 2 ^ 23 := by decide
  rw [unitClamp]
  split
  · exact within_of_level hzero (by decide) (by decide)
  next hless =>
    split
    · exact within_of_level hone (by decide) (by decide)
    next hgreater =>
      rw [not_lt_iff ht hzero, le_iff hzero ht, hlevel₀] at hless
      rw [not_lt_iff hone ht, le_iff ht hone, hlevel₁] at hgreater
      refine within_of_level ht (by decide) ?_
      rw [abs_of_nonneg hless]
      exact hgreater

end MotionScript.Single
