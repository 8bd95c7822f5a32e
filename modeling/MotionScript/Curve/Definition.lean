import MotionScript.Curve.Basic
import MotionScript.Json.Value
import MotionScript.Number.Reader
import MotionScript.Template
/-!
# Definitions of curves

A definition is a structure of the fields `type`, `nodes`, `input` and `horizontal_range`.  The
nodes are a list of values, which are spread evenly, or an object whose keys are times.  First the
form of the whole definition is looked at, then the field `type`, and then the expressions are
compiled in the order of the fields, those of keyed nodes in the order of their keys.
-/

namespace MotionScript

/-- An expression in a definition: a number or a source text. -/
inductive ExprData where
  | number (value : Float32)
  | source (text : String)

namespace ExprData

def ofJson? : Json → Option ExprData
  | .number n => some (.number n.toSingle)
  | .string text => some (.source text)
  | _ => none

/-- The expression, compiled if it is a source text. -/
def load : ExprData → Loading Expr
  | .number value => return (← Template.constant value).expr
  | .source text => return (← Template.compile text).expr

/-- The expression of a field that may be left out. -/
def loadOr (absent : Loading Expr) : Option ExprData → Loading Expr
  | some data => data.load
  | none => absent

end ExprData

/-- A node of a definition, with the fields that it gives. -/
structure NodeData where
  value : Option ExprData
  leftValue : Option ExprData
  rightValue : Option ExprData
  slope : Option ExprData
  leftSlope : Option ExprData
  rightSlope : Option ExprData

namespace NodeData

def ofValue (value : ExprData) : NodeData :=
  ⟨some value, none, none, none, none, none⟩

def fieldNames : List String :=
  ["value", "left_value", "right_value", "slope", "left_slope", "right_slope"]

def ofParts? (json : Json) : Option NodeData := do
  let parts ← Json.parts? fieldNames json
  match ← parts.mapM (Json.optional? ExprData.ofJson?) with
  | [value, leftValue, rightValue, slope, leftSlope, rightSlope] =>
    some { value, leftValue, rightValue, slope, leftSlope, rightSlope }
  | _ => none

def ofJson? (json : Json) : Option NodeData :=
  match ExprData.ofJson? json with
  | some value => some (ofValue value)
  | none => ofParts? json

def loadPlain (key : String) (time : Float32) (data : NodeData) :
    Loading (Curve.Node Expr Float32) := do
  let value ← ExprData.loadOr (throw (.construction (.nodeWithoutValue key))) data.value
  return .plain .zero time value

/-- What holds on the left and on the right of a node, given what to do where a side is missing. -/
def loadSides (both left right : Option ExprData) (noLeft noRight : Loading Expr) :
    Loading (Expr × Expr) :=
  match both with
  | some data => do
    let e ← data.load
    return (e, e)
  | none => do
    let left ← ExprData.loadOr noLeft left
    let right ← ExprData.loadOr noRight right
    return (left, right)

/-- The fault of a chain node that gives a field for both sides and for one side. -/
def twiceFault? (key : String) (data : NodeData) : Option ConstructionFault :=
  if data.value.isSome && (data.leftValue.isSome || data.rightValue.isSome) then
    some (.valueTwice key)
  else if data.slope.isSome && (data.leftSlope.isSome || data.rightSlope.isSome) then
    some (.slopeTwice key)
  else none

/-- The node with sides of its own at a time.  Slopes may be missing and are then zero. -/
def loadChain (key : String) (time : Float32) (data : NodeData) :
    Loading (Curve.Node Expr Float32) :=
  match data.twiceFault? key with
  | some fault => throw (.construction fault)
  | none => do
    let without (side : String) : Loading Expr := throw (.construction (.nodeWithoutSide key side))
    let (leftValue, rightValue) ←
      loadSides data.value data.leftValue data.rightValue (without "left_value")
        (without "right_value")
    let (leftSlope, rightSlope) ←
      loadSides data.slope data.leftSlope data.rightSlope (return .zero) (return .zero)
    return { time, leftValue, rightValue, leftSlope, rightSlope }

/-- The node under a key, which has to be a time. -/
def load (shape : Curve.Shape) (key : String) (data : NodeData) :
    Loading (Curve.Node Expr Float32) :=
  match Single.read? (trim key) with
  | none => throw (.construction (.keyNotTime key))
  | some time => if shape = .bezierChain then data.loadChain key time else data.loadPlain key time

end NodeData

inductive NodesData where
  /-- Values without times. -/
  | list (values : List ExprData)
  /-- Nodes under their times. -/
  | keyed (nodes : List (String × NodeData))

namespace NodesData

def ofJson? : Json → Option NodesData
  | .array elements => (elements.mapM ExprData.ofJson?).map .list
  | .object members =>
    (members.mapM fun member => (NodeData.ofJson? member.2).map (member.1, ·)).map .keyed
  | _ => none

/-- The members of an object in the order of their keys. -/
def sortByKey {β : Type} (members : List (String × β)) : List (String × β) :=
  members.mergeSort fun left right => !decide (right.1 < left.1)

def load (shape : Curve.Shape) : NodesData → Loading (List (Curve.Node Expr Float32))
  | .list values =>
    if shape = .bezierChain then throw (.construction .chainWithoutTimes)
    else return Curve.Node.spread .zero shape (← values.mapM ExprData.load)
  | .keyed nodes => (sortByKey nodes).mapM fun (key, data) => data.load shape key

end NodesData

structure CurveData where
  shape : String
  nodes : Option NodesData
  input : Option ExprData
  range : Option ExprData

namespace CurveData

def fieldNames : List String :=
  ["type", "nodes", "input", "horizontal_range"]

def ofJson? (json : Json) : Option CurveData := do
  match ← Json.parts? fieldNames json with
  | [shape, nodes, input, range] =>
    let shape ← shape.bind Json.string?
    let nodes ← Json.optional? NodesData.ofJson? nodes
    let input ← Json.optional? ExprData.ofJson? input
    let range ← Json.optional? ExprData.ofJson? range
    some { shape, nodes, input, range }
  | _ => none

/-- The curve that a definition describes.  Without an input the input is zero, and without a range
the range is one. -/
def load (data : CurveData) : Loading (Curve Expr Float32) := do
  match Curve.Shape.ofName? data.shape with
  | none => throw (.construction (.unknownShape data.shape))
  | some shape =>
    let nodes ←
      match data.nodes with
      | some nodes => nodes.load shape
      | none => pure []
    let input ← ExprData.loadOr (return .zero) data.input
    let range ← ExprData.loadOr (return .one) data.range
    let curve ← (Curve.ofNodes shape nodes input range).mapError LoadError.construction
    return curve

end CurveData

namespace Curve

def ofJson (json : Json) : Loading (Curve Expr Float32) :=
  match CurveData.ofJson? json with
  | some data => data.load
  | none => throw (.shape .malformed)

def ofJsonText (text : String) : Loading (Curve Expr Float32) :=
  match Json.read? text with
  | some json => ofJson json
  | none => throw (.shape .malformed)

end Curve

end MotionScript
