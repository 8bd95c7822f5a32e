import MotionScript.Curve.Segment
import MotionScript.Environment
/-!
# Values of curves

The value of a curve is computed from the values of its expressions, which are asked for one after
the other: the range, the input, and then those of the segment in force.  How an expression gets its
value is a parameter; in an environment each one is evaluated on its own and counts as zero if it is
not finite.
-/

namespace MotionScript

variable {m : Type → Type} [Monad m]
variable {ε α : Type} [NatCast α] [Add α] [Sub α] [Mul α] [Div α] [Neg α]
variable [LT α] [DecidableLT α] [BEq α]

namespace Segment

/-- Progress from one node to another, limited to the way between them. -/
def between (start stop : Curve.Node ε α) (x : α) : α :=
  unitClamp (progress start.time stop.time x)

def value (resolve : ε → m α) (x : α) : Segment ε α → m α
  | .input => return x
  | .level value => resolve value
  | .line start stop => do
    let a ← resolve start.value
    let b ← resolve stop.value
    return lerp a b (between start stop x)
  | .control a b c d => do
    let a ← resolve a
    let b ← resolve b
    let c ← resolve c
    let d ← resolve d
    return bezier a b c d x
  | .chain start stop => do
    let third := (stop.time - start.time) / ((3 : Nat) : α)
    let a ← resolve start.rightValue
    let startSlope ← resolve start.rightSlope
    let d ← resolve stop.leftValue
    let stopSlope ← resolve stop.leftSlope
    return bezier a (a + third * startSlope) (d - third * stopSlope) d (between start stop x)
  | .spline before start stop after => do
    let a ← resolve before.value
    let b ← resolve start.value
    let c ← resolve stop.value
    let d ← resolve after.value
    return catmullRom a b c d (between start stop x)

end Segment

namespace Curve

/-- The value of a curve, given how its expressions get theirs.  Without nodes it is zero, and over
a range of zero it is one. -/
def evaluateWith (resolve : ε → m α) (curve : Curve ε α) : m α := do
  if curve.nodes.isEmpty then
    return ((0 : Nat) : α)
  else
    let range ← resolve curve.range
    if range == ((0 : Nat) : α) then
      return ((1 : Nat) : α)
    else
      let input ← resolve curve.input
      let x := input / range
      (curve.segment x).value resolve x

def evaluate [Environment m] (curve : Curve Expr Float32) : m Float32 :=
  curve.evaluateWith Expr.result

end Curve

end MotionScript
