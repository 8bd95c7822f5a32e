import MotionScript.Error
import MotionScript.Json.Printer
import MotionScript.Json.Value
import MotionScript.Keyframe
/-!
# Keyframes as JSON

A keyframe is a structure of the fields `timestamp`, `value`, `interpolation`, `pre` and `post`, of
which the last three may be left out.
-/

namespace MotionScript

namespace Triple

def ofJson? : Json → Option (Triple Float32)
  | .array elements => (elements.mapM Json.single?).bind ofList?
  | _ => none

def jsonText (triple : Triple Float32) : String :=
  Json.arrayText (triple.toList.map Json.singleText)

end Triple

namespace Transition

/-- The interpolation that a field names, the standard one where it is left out. -/
def ofField? : Option Json → Option Transition
  | none => some standard
  | some json => json.string?.map ofName

end Transition

namespace Keyframe

def fieldNames : List String :=
  ["timestamp", "value", "interpolation", "pre", "post"]

def ofJson? (json : Json) : Option (Keyframe Float32) := do
  match ← Json.parts? fieldNames json with
  | [time, value, transition, pre, post] =>
    let time ← time.bind Json.single?
    let value ← value.bind Triple.ofJson?
    let transition ← Transition.ofField? transition
    let pre ← Json.optional? Triple.ofJson? pre
    let post ← Json.optional? Triple.ofJson? post
    some { time, value, transition, pre, post }
  | _ => none

def jsonText (key : Keyframe Float32) : String :=
  Json.objectText [("timestamp", Json.singleText key.time), ("value", key.value.jsonText),
    ("interpolation", Json.stringText key.transition.name),
    ("pre", Json.optionText Triple.jsonText key.pre),
    ("post", Json.optionText Triple.jsonText key.post)]

def listOfJson? : Json → Option (List (Keyframe Float32))
  | .array elements => elements.mapM ofJson?
  | _ => none

def listOfJsonText (text : String) : Except LoadError (List (Keyframe Float32)) :=
  match (Json.read? text).bind listOfJson? with
  | some keys => .ok keys
  | none => .error (.shape .malformed)

end Keyframe

end MotionScript
