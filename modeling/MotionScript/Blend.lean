/-!
# Blending formulas

The polynomials by which curves, keyframes and functions blend their values.  They are stated over
any type with the operations that they use: single precision numbers when content runs, an ordered
field when the formulas are studied.  The order of the operations is part of each formula.
-/

namespace MotionScript

variable {α : Type} [NatCast α] [Add α] [Sub α] [Mul α] [Div α] [Neg α]

/-- The point at progress `t` on the way from `a` to `b`. -/
def lerp (a b t : α) : α :=
  a + (b - a) * t

/-- The smooth step: it leaves zero and reaches one with slope zero. -/
def hermiteBlend (t : α) : α :=
  ((3 : Nat) : α) * t * t - ((2 : Nat) : α) * t * t * t

/-- The cubic with the control values `p₀` to `p₃` in the Bernstein basis. -/
def bezier (p₀ p₁ p₂ p₃ t : α) : α :=
  let s := ((1 : Nat) : α) - t
  s * s * s * p₀ + ((3 : Nat) : α) * s * s * t * p₁ + ((3 : Nat) : α) * s * t * t * p₂
    + t * t * t * p₃

/-- The cubic from `p₁` to `p₂` whose end slopes are half the differences to the second
neighbours. -/
def catmullRom (p₀ p₁ p₂ p₃ t : α) : α :=
  ((1 : Nat) : α) / ((2 : Nat) : α) *
    (((2 : Nat) : α) * p₁
      + (-p₀ + p₂) * t
      + (((2 : Nat) : α) * p₀ - ((5 : Nat) : α) * p₁ + ((4 : Nat) : α) * p₂ - p₃) * t * t
      + (-p₀ + ((3 : Nat) : α) * p₁ - ((3 : Nat) : α) * p₂ + p₃) * t * t * t)

/-- The cubic from `p₀` to `p₁` with the slopes `m₀` and `m₁` at its ends. -/
def hermite (p₀ m₀ p₁ m₁ t : α) : α :=
  let t₂ := t * t
  let t₃ := t₂ * t
  let h₀₀ := ((2 : Nat) : α) * t₃ - ((3 : Nat) : α) * t₂ + ((1 : Nat) : α)
  let h₁₀ := t₃ - ((2 : Nat) : α) * t₂ + t
  let h₀₁ := -((2 : Nat) : α) * t₃ + ((3 : Nat) : α) * t₂
  let h₁₁ := t₃ - t₂
  h₀₀ * p₀ + h₁₀ * m₀ + h₀₁ * p₁ + h₁₁ * m₁

def unitClamp [LT α] [DecidableLT α] (t : α) : α :=
  if t < ((0 : Nat) : α) then ((0 : Nat) : α)
  else if ((1 : Nat) : α) < t then ((1 : Nat) : α)
  else t

/-- How far `x` is on the way from `start` to `stop`, and zero if there is no way. -/
def progress [BEq α] (start stop x : α) : α :=
  let span := stop - start
  if span == ((0 : Nat) : α) then ((0 : Nat) : α) else (x - start) / span

end MotionScript
