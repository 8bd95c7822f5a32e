import MotionScript.Json.Printer
import MotionScript.Json.Value
import MotionScript.Options
/-!
# Options as JSON

A group of options is an object of its fields or an array of them in their order.  What is left out
has its standard value, and an object may have fields that no option knows; their values are not
looked at.
-/

namespace MotionScript

namespace Json

/-- The value of a key among members whose keys are known, given that it occurs at most once. -/
def onlyMember? (members : List (String × Tree)) (key : String) : Option (Option Tree) :=
  match members.filter fun member => member.1 == key with
  | [] => some none
  | [(_, tree)] => some (some tree)
  | _ => none

/-- The parts of a structure with the given fields, in the order of the fields. -/
def fields? (names : List String) : Tree → Option (List (Option Tree))
  | .object members => do
    let members ← members.mapM fun (key, tree) => (text? key).map (·, tree)
    names.mapM (onlyMember? members)
  | .array elements =>
    if names.length < elements.length then none
    else some (elements.map some ++ List.replicate (names.length - elements.length) none)
  | _ => none

/-- The value of a part, or a standard value where it is left out. -/
def decode? {α : Type} (decode : Tree → Option α) (standard : α) : Option Tree → Option α
  | none => some standard
  | some tree => decode tree

def bool? : Tree → Option Bool
  | .bool b => some b
  | _ => none

/-- An integer of 64 bits without a sign. -/
def word? : Tree → Option Nat
  | .number numeral =>
    match numeral.number? with
    | some (.natural n) => some n
    | _ => none
  | _ => none

/-- A part that may be `null`. -/
def nullable? {α : Type} (decode : Tree → Option α) : Tree → Option (Option α)
  | .null => some none
  | tree => (decode tree).map some

end Json

namespace ParseOptions

def ofTree? (tree : Json.Tree) : Option ParseOptions := do
  match ← Json.fields? ["simplify", "cache", "max_depth"] tree with
  | [simplify, cache, maxDepth] =>
    let simplify ← Json.decode? Json.bool? standard.simplify simplify
    let cache ← Json.decode? Json.bool? standard.cache cache
    let maxDepth ← Json.decode? Json.word? standard.maxDepth maxDepth
    return { simplify, cache, maxDepth }
  | _ => none

def jsonText (options : ParseOptions) : String :=
  Json.objectText [("simplify", Json.boolText options.simplify),
    ("cache", Json.boolText options.cache), ("max_depth", toString options.maxDepth)]

end ParseOptions

namespace HostOptions

def ofTree? (tree : Json.Tree) : Option HostOptions := do
  match ← Json.fields? ["parse", "unbound_log_window_ms", "seed"] tree with
  | [parse, logWindow, seed] =>
    let parse ← Json.decode? ParseOptions.ofTree? standard.parse parse
    let logWindow ← Json.decode? Json.word? standard.logWindow logWindow
    let seed ← Json.decode? (Json.nullable? Json.word?) standard.seed seed
    return { parse, logWindow, seed }
  | _ => none

def ofJsonText (text : String) : Except LoadError HostOptions :=
  match (Json.Tree.read? text).bind ofTree? with
  | some options => .ok options
  | none => .error (.shape .malformed)

def jsonText (options : HostOptions) : String :=
  Json.objectText [("parse", options.parse.jsonText),
    ("unbound_log_window_ms", toString options.logWindow),
    ("seed", Json.optionText toString options.seed)]

end HostOptions

end MotionScript
