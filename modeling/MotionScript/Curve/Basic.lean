import MotionScript.Expr.Basic
import MotionScript.Text.Blank
import MotionScript.Timeline
/-!
# Curves

A curve maps the value of its input, divided by its range, to a value that its nodes shape.  The
values and slopes of the nodes are expressions of type `ε`, and their times are numbers of type `α`:
single precision numbers when content runs, an ordered field when shapes are studied.
-/

namespace MotionScript

/-- How a curve runs between its nodes. -/
inductive Curve.Shape where
  /-- Straight from node to node. -/
  | linear
  /-- One cubic over four control values. -/
  | bezier
  /-- Cubics with a value and a slope on either side of each node. -/
  | bezierChain
  /-- A smooth line through all nodes but the first and the last, which only shape its ends. -/
  | catmullRom
deriving DecidableEq

namespace Curve.Shape

def all : List Curve.Shape :=
  [.linear, .bezier, .bezierChain, .catmullRom]

def name : Curve.Shape → String
  | .linear => "linear"
  | .bezier => "bezier"
  | .bezierChain => "bezier_chain"
  | .catmullRom => "catmull_rom"

/-- The shape with a name, upper and lower case being one. -/
def ofName? (name : String) : Option Curve.Shape :=
  all.find? fun shape => sameName shape.name name

/-- The number of nodes at either end that the curve does not run through. -/
def margin : Curve.Shape → Nat
  | .catmullRom => 1
  | _ => 0

/-- The time of the value at position `i` of `count` values that are spread evenly, those that the
curve runs through over the unit interval. -/
def evenTime {α : Type} [NatCast α] [Sub α] [Div α] [LT α] [DecidableLT α] (shape : Curve.Shape)
    (count i : Nat) : α :=
  let span := (count : α) - ((2 * shape.margin : Nat) : α) - ((1 : Nat) : α)
  if ((0 : Nat) : α) < span then ((i - shape.margin : Nat) : α) / span else ((0 : Nat) : α)

theorem ofName?_name (shape : Curve.Shape) : ofName? shape.name = some shape := by
  cases shape <;> decide

end Curve.Shape

/-- A node of a curve, with what holds just before and just after it. -/
structure Curve.Node (ε α : Type) where
  time : α
  leftValue : ε
  rightValue : ε
  leftSlope : ε
  rightSlope : ε

namespace Curve.Node

variable {ε α : Type}

/-- The value of a node that has the same one on either side. -/
def value (node : Curve.Node ε α) : ε :=
  node.leftValue

/-- A node with one value and with a slope of `zero`. -/
def plain (zero : ε) (time : α) (value : ε) : Curve.Node ε α :=
  ⟨time, value, value, zero, zero⟩

/-- Nodes with the given values, spread evenly over the unit interval. -/
def spread [NatCast α] [Sub α] [Div α] [LT α] [DecidableLT α] (zero : ε) (shape : Curve.Shape)
    (values : List ε) : List (Curve.Node ε α) :=
  values.zipIdx.map fun (value, i) => plain zero (shape.evenTime values.length i) value

end Curve.Node

structure Curve (ε α : Type) where
  shape : Curve.Shape
  nodes : List (Curve.Node ε α)
  input : ε
  range : ε

namespace Curve

variable {ε : Type}

def bezierCount : Nat := 4

/-- A curve over nodes in any order.  Their number is looked at before their times. -/
def ofNodes (shape : Curve.Shape) (nodes : List (Curve.Node ε Float32)) (input range : ε) :
    Except ConstructionFault (Curve ε Float32) := do
  if shape = .bezier ∧ nodes.length ≠ bezierCount then
    .error (.bezierNodeCount nodes.length)
  else
    let nodes ← Timeline.ofEntries Curve.Node.time .nodeTimeNotFinite nodes
    return ⟨shape, nodes, input, range⟩

end Curve

end MotionScript
