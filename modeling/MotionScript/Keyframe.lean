import MotionScript.Ease.Formula
/-!
# Keyframes

A keyframe fixes a value of three components at a time and says how the value moves to the next key.
Between two keys the value runs on a segment, a formula in the progress from the one to the other.
-/

namespace MotionScript

/-- Three numbers, such as a position, a rotation or a scale. -/
structure Triple (α : Type) where
  x : α
  y : α
  z : α
deriving DecidableEq

namespace Triple

variable {α : Type}

def components : List (Triple α → α) :=
  [x, y, z]

/-- The triple whose components follow from the same components of others. -/
def ofComponents (value : (Triple α → α) → α) : Triple α :=
  ⟨value Triple.x, value Triple.y, value Triple.z⟩

theorem component_ofComponents {component : Triple α → α} (hcomponent : component ∈ components)
    (value : (Triple α → α) → α) : component (ofComponents value) = value component := by
  simp only [components, List.mem_cons, List.not_mem_nil, or_false] at hcomponent
  obtain rfl | rfl | rfl := hcomponent <;> rfl

def toList (triple : Triple α) : List α :=
  [triple.x, triple.y, triple.z]

def ofList? : List α → Option (Triple α)
  | [x, y, z] => some ⟨x, y, z⟩
  | _ => none

end Triple

/-- How the value moves from a key to the next one. -/
inductive Transition where
  /-- A blend with eased progress, or a cubic if there are tangents. -/
  | ease (easing : Ease)
  /-- The value stays until the next key. -/
  | step
  /-- A cubic that also looks at the keys before and after the two. -/
  | catmullRom
  /-- A cubic with the tangents of the two keys as control values. -/
  | bezier
deriving DecidableEq

namespace Transition

/-- The interpolation of a key that names none. -/
def standard : Transition := .ease .linear

def name : Transition → String
  | .ease easing => easing.name
  | .step => "step"
  | .catmullRom => "catmullrom"
  | .bezier => "bezier"

/-- The interpolation with a name, white space around it and the case of its letters aside.  An
unknown name means the standard one. -/
def ofName (name : String) : Transition :=
  match [step, catmullRom, bezier].find? fun mode => sameName mode.name (trim name) with
  | some mode => mode
  | none => .ease ((Ease.ofName? name).getD .linear)

end Transition

structure Keyframe (α : Type) where
  time : α
  value : Triple α
  /-- How the value moves to the next key. -/
  transition : Transition
  /-- The tangent or control value of the segment before the key. -/
  pre : Option (Triple α)
  /-- The tangent or control value of the segment after the key. -/
  post : Option (Triple α)
deriving DecidableEq

namespace Keyframe

variable {α : Type} [NatCast α] [Add α] [Sub α] [Mul α] [Div α] [Neg α]
variable [LT α] [DecidableLT α]

/-- The difference between the values of two keys. -/
def chord (start stop : Keyframe α) : Triple α :=
  .ofComponents fun component => component stop.value - component start.value

/-- The cubic with the tangents of two keys; a missing tangent is the chord. -/
def tangentSegment (start stop : Keyframe α) (u : α) : Triple α :=
  .ofComponents fun component =>
    hermite (component start.value) (component (start.post.getD (start.chord stop)))
      (component stop.value) (component (stop.pre.getD (start.chord stop))) u

/-- The cubic with the control values of two keys; a missing control value is the value of its
key. -/
def controlSegment (start stop : Keyframe α) (u : α) : Triple α :=
  .ofComponents fun component =>
    bezier (component start.value) (component (start.post.getD start.value))
      (component (stop.pre.getD stop.value)) (component stop.value) u

/-- The cubic from the second of four keys to the third one. -/
def splineSegment (before start stop after : Keyframe α) (u : α) : Triple α :=
  .ofComponents fun component =>
    catmullRom (component before.value) (component start.value) (component stop.value)
      (component after.value) u

/-- The straight blend at an eased progress. -/
def easedSegment [LE α] [DecidableLE α] [OfScientific α] [Elementary α] (easing : Ease)
    (start stop : Keyframe α) (u : α) : Triple α :=
  .ofComponents fun component =>
    lerp (component start.value) (component stop.value) (easing.apply u)

/-- The value at progress `u` from `start` to `stop`, which stand between two others. -/
def segment [LE α] [DecidableLE α] [OfScientific α] [Elementary α]
    (before start stop after : Keyframe α) (u : α) : Triple α :=
  match start.transition with
  | .step => start.value
  | .catmullRom => splineSegment before start stop after u
  | .bezier => controlSegment start stop u
  | .ease easing =>
    if start.post.isSome || stop.pre.isSome then tangentSegment start stop u
    else easedSegment easing start stop u

end Keyframe

end MotionScript
