import MotionScript.Blend
import MotionScript.Ease
import MotionScript.MathFunction.Apply
/-!
# Formulas of easings

Every easing maps zero to zero and one to one, and what lies outside the unit interval is first
limited to it.  The formulas are stated over any type with the operations that they use, and the
order of the operations is part of them.
-/

namespace MotionScript

/-- Numbers with the functions that bends are made of besides arithmetic. -/
class Elementary (α : Type) where
  /-- The circle constant. -/
  pi : α
  sqrt : α → α
  sin : α → α
  cos : α → α
  pow : α → α → α

instance : Elementary Float32 where
  pi := piSingle
  sqrt := Float32.sqrt
  sin := Float32.sin
  cos := Float32.cos
  pow := Float32.pow

namespace Ease

variable {α : Type} [NatCast α] [Add α] [Sub α] [Mul α] [Div α] [Neg α]
variable [LT α] [DecidableLT α]

/-- The number `result * x ^ n` by repeated squaring. -/
def powerTimes : Nat → α → α → α
  | 0, _, result => result
  | n + 1, x, result =>
    powerTimes ((n + 1) / 2) (x * x) (if n % 2 = 0 then result * x else result)

def power (n : Nat) (x : α) : α :=
  powerTimes n x ((1 : Nat) : α)

/-- The exponent of a family of powers. -/
def Family.degree? : Family → Option Nat
  | .quad => some 2
  | .cubic => some 3
  | .quart => some 4
  | .quint => some 5
  | _ => none

/-- The bend that a power makes. -/
def powerBend (n : Nat) (side : Side) (t : α) : α :=
  let one : α := ((1 : Nat) : α)
  match side with
  | .easeIn => power n t
  | .easeOut => one - power n (one - t)
  | .easeInOut =>
    let scale : α := power (n - 1) ((2 : Nat) : α)
    if t < one / ((2 : Nat) : α) then scale * power n t else one - scale * power n (one - t)

variable [OfScientific α]

/-- How far `back` overshoots, and what follows from it. -/
def overshoot : α := 1.70158

/-- The overshoot where both ends bend. -/
def overshootBoth : α := overshoot * 1.525

variable [Elementary α]

open Elementary

def exp2 (x : α) : α :=
  pow ((2 : Nat) : α) x

/-- The oscillation where one end bends. -/
def swing (x : α) : α :=
  sin (x * (((2 : Nat) : α) * pi / ((3 : Nat) : α)))

/-- The oscillation where both ends bend. -/
def swingBoth (t : α) : α :=
  sin ((((20 : Nat) : α) * t - 11.125) * (((2 : Nat) : α) * pi / 4.5))

/-- The bend of a family strictly between zero and one. -/
def interior (family : Family) (side : Side) (t : α) : α :=
  let one : α := ((1 : Nat) : α)
  let two : α := ((2 : Nat) : α)
  let four : α := ((4 : Nat) : α)
  let ten : α := ((10 : Nat) : α)
  let twenty : α := ((20 : Nat) : α)
  match family, side with
  | .sine, .easeIn => one - cos (t * pi / two)
  | .sine, .easeOut => sin (t * pi / two)
  | .sine, .easeInOut => -(cos (pi * t) - one) / two
  | .expo, .easeIn => exp2 (ten * t - ten)
  | .expo, .easeOut => one - exp2 (-ten * t)
  | .expo, .easeInOut =>
    if t < one / two then exp2 (twenty * t - ten) / two
    else (two - exp2 (-twenty * t + ten)) / two
  | .circ, .easeIn => one - sqrt (one - t * t)
  | .circ, .easeOut => sqrt (one - (t - one) * (t - one))
  | .circ, .easeInOut =>
    if t < one / two then (one - sqrt (one - four * t * t)) / two
    else (sqrt (one - power 2 (-two * t + two)) + one) / two
  | .back, .easeIn => (overshoot + one) * t * t * t - overshoot * t * t
  | .back, .easeOut =>
    one + (overshoot + one) * power 3 (t - one) + overshoot * power 2 (t - one)
  | .back, .easeInOut =>
    if t < one / two then
      power 2 (two * t) * ((overshootBoth + one) * two * t - overshootBoth) / two
    else
      (power 2 (two * t - two) * ((overshootBoth + one) * (t * two - two) + overshootBoth) + two)
        / two
  | .elastic, .easeIn => -exp2 (ten * t - ten) * swing (t * ten - 10.75)
  | .elastic, .easeOut => exp2 (-ten * t) * swing (t * ten - 0.75) + one
  | .elastic, .easeInOut =>
    if t < one / two then -(exp2 (twenty * t - ten) * swingBoth t) / two
    else exp2 (-twenty * t + ten) * swingBoth t / two + one
  | _, _ => t

/-- The bend of a family on the unit interval. -/
def bendAt [LE α] [DecidableLE α] (family : Family) (side : Side) (t : α) : α :=
  match family.degree? with
  | some n => powerBend n side t
  | none =>
    if t ≤ ((0 : Nat) : α) then ((0 : Nat) : α)
    else if ((1 : Nat) : α) ≤ t then ((1 : Nat) : α)
    else interior family side t

def apply [LE α] [DecidableLE α] (ease : Ease) (t : α) : α :=
  match ease with
  | .linear => unitClamp t
  | .bend family side => bendAt family side (unitClamp t)

end Ease

end MotionScript
