/-!
# Built-in functions

The functions of the scope `math`, with their names, numbers of arguments and use of randomness.
-/

namespace MotionScript

inductive MathFunction where
  | abs
  /-- Inverse cosine, in degrees. -/
  | acos
  /-- Inverse sine, in degrees. -/
  | asin
  /-- Inverse tangent, in degrees. -/
  | atan
  /-- The direction of a point given by its ordinate and abscissa, in degrees. -/
  | atan2
  | ceil
  /-- The nearest number between two bounds. -/
  | clamp
  /-- Cosine of degrees. -/
  | cos
  /-- The sum of a number of uniform samples between two bounds. -/
  | dieRoll
  /-- The sum of a number of uniform integers between two bounds. -/
  | dieRollInteger
  | exp
  | floor
  /-- The smooth step from zero to one. -/
  | hermiteBlend
  /-- Linear interpolation. -/
  | lerp
  /-- Linear interpolation along the shorter arc, in degrees. -/
  | lerpRotate
  | ln
  | max
  | min
  /-- The angle wrapped around to at most half a turn, in degrees. -/
  | minAngle
  | mod
  | pi
  | pow
  /-- A uniform sample between two bounds. -/
  | random
  /-- A uniform integer between two bounds. -/
  | randomInteger
  | round
  /-- Sine of degrees. -/
  | sin
  | sqrt
  /-- Tangent of degrees. -/
  | tan
  | trunc
deriving DecidableEq

namespace MathFunction

/-- Every function, in the order of the names. -/
def all : List MathFunction :=
  [.abs, .acos, .asin, .atan, .atan2, .ceil, .clamp, .cos, .dieRoll, .dieRollInteger, .exp, .floor,
    .hermiteBlend, .lerp, .lerpRotate, .ln, .max, .min, .minAngle, .mod, .pi, .pow, .random,
    .randomInteger, .round, .sin, .sqrt, .tan, .trunc]

/-- The name after `math.`. -/
def name : MathFunction → String
  | .abs => "abs"
  | .acos => "acos"
  | .asin => "asin"
  | .atan => "atan"
  | .atan2 => "atan2"
  | .ceil => "ceil"
  | .clamp => "clamp"
  | .cos => "cos"
  | .dieRoll => "die_roll"
  | .dieRollInteger => "die_roll_integer"
  | .exp => "exp"
  | .floor => "floor"
  | .hermiteBlend => "hermite_blend"
  | .lerp => "lerp"
  | .lerpRotate => "lerprotate"
  | .ln => "ln"
  | .max => "max"
  | .min => "min"
  | .minAngle => "min_angle"
  | .mod => "mod"
  | .pi => "pi"
  | .pow => "pow"
  | .random => "random"
  | .randomInteger => "random_integer"
  | .round => "round"
  | .sin => "sin"
  | .sqrt => "sqrt"
  | .tan => "tan"
  | .trunc => "trunc"

def ofName? (name : String) : Option MathFunction :=
  all.find? fun function => function.name == name

def arity : MathFunction → Nat
  | .pi => 0
  | .abs | .acos | .asin | .atan | .ceil | .cos | .exp | .floor | .hermiteBlend | .ln | .minAngle
  | .round | .sin | .sqrt | .tan | .trunc => 1
  | .atan2 | .max | .min | .mod | .pow | .random | .randomInteger => 2
  | .clamp | .dieRoll | .dieRollInteger | .lerp | .lerpRotate => 3

def isRandom : MathFunction → Bool
  | .dieRoll | .dieRollInteger | .random | .randomInteger => true
  | _ => false

def qualifiedName (function : MathFunction) : String :=
  "math." ++ function.name

theorem ofName?_name (function : MathFunction) : ofName? function.name = some function := by
  cases function <;> decide

end MathFunction

end MotionScript
