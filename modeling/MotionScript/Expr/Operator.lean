import MotionScript.Expr.Basic
import MotionScript.MathFunction.Apply
/-!
# Values of the operators

The evaluator and the simplifier share these functions, so a folded constant is what evaluation
would have found.
-/

namespace MotionScript

/-- One for true and zero for false. -/
def truth (b : Bool) : Float32 :=
  if b then 1 else 0

/-- Whether a number counts as true. -/
def holds (x : Float32) : Bool :=
  x != 0

def UnaryOp.value : UnaryOp → Float32 → Float32
  | .neg, x => -x
  | .not, x => truth (x == 0)

/-- The value of an operator whose operands have both been evaluated. -/
def BinaryOp.value : BinaryOp → Float32 → Float32 → Float32
  | .add, x, y => x + y
  | .sub, x, y => x - y
  | .mul, x, y => x * y
  | .div, x, y => x / y
  | .mod, x, y => modulo x y
  | .eq, x, y => truth (x == y)
  | .ne, x, y => truth (x != y)
  | .lt, x, y => truth (x < y)
  | .le, x, y => truth (x ≤ y)
  | .gt, x, y => truth (y < x)
  | .ge, x, y => truth (y ≤ x)
  | .and, x, y => truth (holds x && holds y)
  | .or, x, y => truth (holds x || holds y)

/-- What an assignment stores, from the stored value and the new one. -/
def AssignOp.value : AssignOp → Float32 → Float32 → Float32
  | .set, _, new => new
  | .add, stored, new => stored + new
  | .sub, stored, new => stored - new
  | .mul, stored, new => stored * new
  | .div, stored, new => stored / new

end MotionScript
