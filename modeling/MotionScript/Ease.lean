import MotionScript.Text.Blank
/-!
# Easings

An easing bends the progress of a movement.  Apart from the straight one there are families of
bends, and each family can bend the start, the end, or both.
-/

namespace MotionScript

namespace Ease

/-- What the bend of an easing is made of. -/
inductive Family where
  /-- Powers of the progress. -/
  | quad | cubic | quart | quint
  /-- A quarter of a sine wave. -/
  | sine
  /-- A power of two. -/
  | expo
  /-- A quarter of a circle. -/
  | circ
  /-- A cubic that first goes the wrong way. -/
  | back
  /-- An oscillation. -/
  | elastic
deriving DecidableEq

namespace Family

def all : List Family :=
  [.quad, .cubic, .quart, .quint, .sine, .expo, .circ, .back, .elastic]

def name : Family → String
  | .quad => "quad"
  | .cubic => "cubic"
  | .quart => "quart"
  | .quint => "quint"
  | .sine => "sine"
  | .expo => "expo"
  | .circ => "circ"
  | .back => "back"
  | .elastic => "elastic"

end Family

/-- Where an easing bends. -/
inductive Side where
  | easeIn
  | easeOut
  | easeInOut
deriving DecidableEq

namespace Side

def all : List Side :=
  [.easeIn, .easeOut, .easeInOut]

def name : Side → String
  | .easeIn => "in"
  | .easeOut => "out"
  | .easeInOut => "inout"

end Side

end Ease

inductive Ease where
  /-- The progress itself. -/
  | linear
  | bend (family : Ease.Family) (side : Ease.Side)
deriving DecidableEq

namespace Ease

def all : List Ease :=
  .linear :: Family.all.flatMap fun family => Side.all.map (bend family)

def name : Ease → String
  | .linear => "linear"
  | .bend family side => family.name ++ "." ++ side.name

def ofExactName? (name : String) : Option Ease :=
  all.find? fun ease => ease.name == name

/-- The easing with a name, white space around it and the case of its letters aside. -/
def ofName? (name : String) : Option Ease :=
  all.find? fun ease => sameName ease.name (trim name)

theorem ofExactName?_name (ease : Ease) : ofExactName? ease.name = some ease := by
  match ease with
  | .linear => decide
  | .bend family side => cases family <;> cases side <;> decide

theorem mem_all (ease : Ease) : ease ∈ all := by
  match ease with
  | .linear => decide
  | .bend family side => cases family <;> cases side <;> decide

end Ease

end MotionScript
