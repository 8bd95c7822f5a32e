import MotionScript.Blend
import MotionScript.Curve.Basic
/-!
# Segments of curves

At every input one segment of a curve is in force, and the nodes that shape it are selected without
looking at any value.  `Curve.activeIndex` is the last node at or before the input among those that
the curve runs through.
-/

namespace MotionScript

/-- The part of a curve that is in force at an input. -/
inductive Segment (ε α : Type) where
  /-- The input itself, where there are too few nodes for the shape of the curve. -/
  | input
  /-- One value, whatever the input. -/
  | level (value : ε)
  /-- A straight line from one node to another. -/
  | line (start stop : Curve.Node ε α)
  /-- A cubic over the unit interval with four control values. -/
  | control (a b c d : ε)
  /-- A cubic with the slopes of its two nodes. -/
  | chain (start stop : Curve.Node ε α)
  /-- A cubic from the second of four nodes to the third one. -/
  | spline (before start stop after : Curve.Node ε α)

namespace Curve

variable {ε α : Type} [LT α] [DecidableLT α]

/-- The nodes that the curve runs to from the front.  At the end as many nodes are left out as at
both ends together. -/
def visibleNodes (curve : Curve ε α) : List (Curve.Node ε α) :=
  (curve.nodes.take (curve.nodes.length - 2 * curve.shape.margin)).drop curve.shape.margin

/-- The position of the last visible node at or before an input, and of the first one where there is
none. -/
def activeIndex (curve : Curve ε α) (x : α) : Nat :=
  let reached := curve.visibleNodes.takeWhile fun node => !decide (x < node.time)
  curve.shape.margin + (reached.length - 1)

def segment (curve : Curve ε α) (x : α) : Segment ε α :=
  let index := curve.activeIndex x
  match curve.shape with
  | .linear =>
    match curve.nodes with
    | [node] => .level node.value
    | nodes =>
      match nodes.drop index with
      | start :: following => .line start (following.headD start)
      | [] => .input
  | .bezier =>
    match curve.nodes with
    | a :: b :: c :: d :: _ => .control a.value b.value c.value d.value
    | _ => .input
  | .bezierChain =>
    match curve.nodes.drop index with
    | start :: stop :: _ => .chain start stop
    | [node] => .level node.rightValue
    | [] => .input
  | .catmullRom =>
    match curve.nodes.drop (index - 1) with
    | before :: start :: stop :: after :: _ => .spline before start stop after
    | _ => .input

end Curve

end MotionScript
