import MotionScript.Angle
import MotionScript.Blend
import MotionScript.MathFunction
import MotionScript.Number.Single
/-!
# Values of the built-in functions

Trigonometry works in double precision and is narrowed at the end.  A function that draws samples
asks for them one at a time, so its value is a program over the source of samples; the value of any
other function asks for none.  Dice that show integers are added up in 64 bits, and that they may
overflow is told to whoever asked for the value.
-/

namespace MotionScript

/-! ### Angles -/

def piDouble : Float := .ofBits 0x400921FB54442D18

def piSingle : Float32 := .ofBits 0x40490FDB

def radians (degrees : Float) : Float :=
  degrees * (piDouble / 180)

def degrees (radians : Float) : Float :=
  radians * (180 / piDouble)

def ofDegrees (function : Float → Float) (x : Float32) : Float32 :=
  Single.narrow (function (radians (Single.widen x)))

/-- The value of a function that answers in radians, in degrees. -/
def inDegrees (function : Float → Float) (x : Float32) : Float32 :=
  Single.narrow (degrees (function (Single.widen x)))

/-- The angle wrapped around to at most half a turn; what is not finite stays as it is. -/
def minAngle (angle : Float32) : Float32 :=
  if angle.isFinite then Angle.wrap angle else angle

/-! ### Bounds and remainders -/

/-- The nearest number between two bounds; the upper bound wins if they are out of order. -/
def clamp (x lower upper : Float32) : Float32 :=
  Single.minimum (Single.maximum x lower) upper

/-- The remainder with the sign of the dividend, and zero if the divisor is zero. -/
def modulo (dividend divisor : Float32) : Float32 :=
  if divisor == 0 then 0 else dividend % divisor

/-! ### Dice -/

namespace Dice

/-- The most samples that one call draws. -/
def limit : Int := 1024

/-- The number of dice in a call. -/
def count (n : Float32) : Nat :=
  (min (max (Single.toInt32 n).toInt 0) limit).toNat

/-- Numbers that 64-bit integers are scaled by. -/
class Scale (β : Type) where
  ofInt64 : Int64 → β
  /-- The number without its fraction, limited to 64 bits. -/
  toInt64 : β → Int64

instance : Scale Float where
  ofInt64 n := .ofModel (.ofInt64 n)
  toInt64 x := x.toModel.toInt64

/-- The integer between two bounds, both included, that a sample of the unit interval selects. -/
def select {β : Type} [Scale β] [Mul β] (lower upper : Int64) (sample : β) : Int64 :=
  lower + Scale.toInt64 (sample * Scale.ofInt64 (upper - lower + 1))

def integer (lower upper : Int64) (sample : Float32) : Int64 :=
  select lower upper (Single.widen sample)

/-- The number between two bounds that a sample selects. -/
def uniform (lower upper sample : Float32) : Float32 :=
  lower + sample * (upper - lower)

/-- An integer that 64 bits can hold.  Arithmetic in 64 bits wraps around where its exact result is
none of these. -/
def IsInt64 (exact : Int) : Prop :=
  Int64.minValue.toInt ≤ exact ∧ exact ≤ Int64.maxValue.toInt

instance (exact : Int) : Decidable (IsInt64 exact) :=
  inferInstanceAs (Decidable (_ ∧ _))

/-- Every step on the way to the integer that a sample selects is within 64 bits. -/
def SelectsInt64 {β : Type} [Scale β] [Mul β] (lower upper : Int64) (sample : β) : Prop :=
  IsInt64 (upper.toInt - lower.toInt) ∧ IsInt64 ((upper - lower).toInt + 1) ∧
    IsInt64 (lower.toInt + (Scale.toInt64 (sample * Scale.ofInt64 (upper - lower + 1))).toInt)

instance {β : Type} [Scale β] [Mul β] (lower upper : Int64) (sample : β) :
    Decidable (SelectsInt64 lower upper sample) :=
  inferInstanceAs (Decidable (_ ∧ _ ∧ _))

section Rolls

variable {m : Type → Type} [Monad m]

/-- Tells `overflow` of arithmetic that is not within its bits. -/
def check (overflow : m Unit) (within : Prop) [Decidable within] : m Unit :=
  if within then pure () else overflow

/-- The integer that a sample selects; `overflow` is told of bounds that are too far apart. -/
def checkedInteger (overflow : m Unit) (lower upper : Int64) (sample : Float32) : m Int64 := do
  check overflow (SelectsInt64 lower upper (Single.widen sample))
  return integer lower upper sample

/-- Adds the integer that a sample selects to a sum; `overflow` is told of a sum beyond 64 bits. -/
def addInteger (overflow : m Unit) (lower upper sum : Int64) (sample : Float32) : m Int64 := do
  let die ← checkedInteger overflow lower upper sample
  check overflow (IsInt64 (sum.toInt + die.toInt))
  return sum + die

/-- Adds `n` dice to `sum`, one after the other, where `add` makes a die of a sample. -/
def roll {β : Type} (sample : m Float32) (add : β → Float32 → m β) : Nat → β → m β
  | 0, sum => pure sum
  | n + 1, sum => do
    let sum ← add sum (← sample)
    roll sample add n sum

end Rolls

end Dice

namespace MathFunction

/-- The argument at a position; what is missing counts as zero. -/
def argument (arguments : List Float32) (position : Nat) : Float32 :=
  arguments.getD position 0

/-- The value of a function that draws no samples. -/
def value (function : MathFunction) (arguments : List Float32) : Float32 :=
  let x := argument arguments 0
  let y := argument arguments 1
  let z := argument arguments 2
  match function with
  | .abs => x.abs
  | .acos => inDegrees Float.acos x
  | .asin => inDegrees Float.asin x
  | .atan => inDegrees Float.atan x
  | .atan2 => inDegrees (Float.atan2 · (Single.widen y)) x
  | .ceil => Single.ceil x
  | .clamp => MotionScript.clamp x y z
  | .cos => ofDegrees Float.cos x
  | .exp => x.exp
  | .floor => Single.floor x
  | .hermiteBlend => MotionScript.hermiteBlend x
  | .lerp => MotionScript.lerp x y z
  | .lerpRotate => Angle.lerpBy MotionScript.minAngle x y z
  | .ln => x.log
  | .max => Single.maximum x y
  | .min => Single.minimum x y
  | .minAngle => MotionScript.minAngle x
  | .mod => modulo x y
  | .pi => piSingle
  | .pow => x.pow y
  | .round => Single.round x
  | .sin => ofDegrees Float.sin x
  | .sqrt => x.sqrt
  | .tan => ofDegrees Float.tan x
  | .trunc => Single.trunc x
  | .dieRoll | .dieRollInteger | .random | .randomInteger => 0

/-- The value of a function, its samples drawn from `sample`.  Where arithmetic on integers leaves
64 bits, `overflow` is told before the result that wraps around is used. -/
def apply {m : Type → Type} [Monad m] (sample : m Float32) (overflow : m Unit)
    (function : MathFunction) (arguments : List Float32) : m Float32 :=
  let x := argument arguments 0
  let y := argument arguments 1
  let z := argument arguments 2
  match function with
  | .dieRoll =>
    Dice.roll sample (fun sum drawn => pure (sum + Dice.uniform y z drawn)) (Dice.count x) 0
  | .dieRollInteger => do
    let add := Dice.addInteger overflow (Single.toInt64 y) (Single.toInt64 z)
    return Single.ofInt64 (← Dice.roll sample add (Dice.count x) 0)
  | .random => do return Dice.uniform x y (← sample)
  | .randomInteger => do
    let drawn ← sample
    let die ← Dice.checkedInteger overflow (Single.toInt64 x) (Single.toInt64 y) drawn
    return Single.ofInt64 die
  | _ => pure (function.value arguments)

/-- A function that draws no samples has its value whatever the source of samples. -/
theorem apply_of_not_isRandom {m : Type → Type} [Monad m] (sample : m Float32) (overflow : m Unit)
    {function : MathFunction} (hplain : function.isRandom = false) (arguments : List Float32) :
    function.apply sample overflow arguments = pure (function.value arguments) := by
  cases function <;> first | rfl | cases hplain

end MathFunction

end MotionScript
