/-!
# Angles in degrees

An angle is wrapped into the half turn on either side of zero.  Moderate angles are moved by whole
turns one at a time, which keeps their fractions; large ones go through a remainder.
-/

namespace MotionScript.Angle

variable {α : Type} [NatCast α] [Add α] [Sub α] [Mul α] [Neg α] [LT α] [DecidableLT α]

def halfTurn : α := ((180 : Nat) : α)

def turn : α := ((360 : Nat) : α)

/-- The number of turns within which an angle is moved one turn at a time. -/
def moderateTurns : Nat := 16

/-- Takes away turns while the angle exceeds half a turn, at most `steps` of them. -/
def lower : Nat → α → α
  | 0, angle => angle
  | steps + 1, angle => if halfTurn < angle then lower steps (angle - turn) else angle

/-- Adds turns while the angle does not exceed minus half a turn, at most `steps` of them. -/
def raise [LE α] [DecidableLE α] : Nat → α → α
  | 0, angle => angle
  | steps + 1, angle => if angle ≤ -halfTurn then raise steps (angle + turn) else angle

def wrapBySteps [LE α] [DecidableLE α] (angle : α) : α :=
  raise moderateTurns (lower moderateTurns angle)

/-- The remainder of a division, moved to the side of zero on which it is not negative. -/
def positiveRemainder [Mod α] (angle divisor : α) : α :=
  let rest := angle % divisor
  if rest < ((0 : Nat) : α) then rest + divisor else rest

def wrapByRemainder [Mod α] (angle : α) : α :=
  let rest := positiveRemainder angle turn
  if halfTurn < rest then rest - turn else rest

/-- The same direction as an angle above minus and at most plus half a turn. -/
def wrap [LE α] [DecidableLE α] [Mod α] (angle : α) : α :=
  let limit := turn * ((moderateTurns : Nat) : α)
  if -limit < angle ∧ angle < limit then wrapBySteps angle else wrapByRemainder angle

/-- The angle at progress `t` on the shorter arc from `start` to `stop`, given how to wrap. -/
def lerpBy (wrap : α → α) (start stop t : α) : α :=
  start + wrap (stop - start) * t

end MotionScript.Angle
