import MotionScript.Curve.Definition
import MotionScript.Curve.Evaluate
/-!
# Sets of curves

A set gives names to curves.  Updating a set evaluates its curves in the order in which their names
came and publishes each value as a variable, where later curves can read it.
-/

namespace MotionScript

/-- Curves under the names of the variables they are published in. -/
abbrev CurveTable := Table String (Curve Expr Float32)

namespace CurveTable

/-- The name of the variable that the key of a curve stands for. -/
def variableName? (key : String) : Option String :=
  let name :=
    match dropWord? (Scope.variable.keyword ++ ".") key with
    | some name => some name
    | none => dropWord? (Scope.variable.letter ++ ".") key
  name.filter fun name => !name.isEmpty
where
  /-- What follows a word at the start of a text. -/
  dropWord? (word text : String) : Option String :=
    if word.toList.isPrefixOf text.toList then
      some (String.ofList (text.toList.drop word.length))
    else none

/-- Puts the curve of a definition into a set, under the variable that its key names. -/
def load (set : CurveTable) (key : String) (definition : Json) : Loading CurveTable :=
  match variableName? key with
  | none => throw (.construction (.notVariableName key))
  | some name => return set.insert name (← Curve.ofJson definition)

def ofJson : Json → Loading CurveTable
  | .object members => members.foldlM (fun set (key, definition) => load set key definition) ∅
  | _ => throw (.shape .curvesNotObject)

def ofJsonText (text : String) : Loading CurveTable :=
  match Json.read? text with
  | some json => ofJson json
  | none => throw (.shape .malformed)

variable {m : Type → Type} [Monad m] [Environment m]

/-- Evaluates curves in order and publishes each value. -/
def publish : List (String × Curve Expr Float32) → m Unit
  | [] => return ()
  | (name, curve) :: curves => do
    let value ← curve.evaluate
    Environment.assign .variable name value
    publish curves

/-- Evaluates the curves of a set in order and publishes each value. -/
def update (set : CurveTable) : m Unit :=
  publish set.entries

end CurveTable

end MotionScript
