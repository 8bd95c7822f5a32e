import MotionScript.Expr.Operator
/-!
# Evaluation

An expression is evaluated in an environment, which is anything that can look up names, store
values and supply random samples.  Evaluation is a program over these requests and does not fail of
itself: a name without a value counts as zero, integers that leave 64 bits wrap around, and the
environment is told of either.  An environment that checks its arithmetic ends the evaluation when
it is told of an overflow.
-/

namespace MotionScript

/-- What evaluation asks of its surroundings, in the monad `m`. -/
class Environment (m : Type → Type) where
  /-- The value of a name, if it has one. -/
  resolve : Scope → String → m (Option Float32)
  /-- Stores a value under a name. -/
  assign : Scope → String → Float32 → m Unit
  /-- A sample of the unit interval without its upper end. -/
  drawSample : m Float32
  /-- Takes notice of a name that has no value. -/
  reportMiss : Scope → String → m Unit
  /-- Takes notice that integers have left 64 bits, and may end the evaluation. -/
  reportOverflow : m Unit
  /-- Prepares for an evaluation on its own. -/
  prepare : m Unit

variable {m : Type → Type} [Monad m] [Environment m]

open Environment

namespace Expr

/-- The value of a name, zero if it has none. -/
def lookup (scope : Scope) (name : String) : m Float32 := do
  match ← resolve scope name with
  | some value => return value
  | none =>
    reportMiss scope name
    return 0

/-- Stores what an operator makes of the stored value and a new one. -/
def store (operator : AssignOp) (scope : Scope) (name : String) (new : Float32) : m Float32 := do
  let value ←
    match operator with
    | .set => pure new
    | _ => do
      let stored ← resolve scope name
      pure (operator.value (stored.getD 0) new)
  Environment.assign scope name value
  return value

mutual

def evaluate : Expr → m Float32
  | .constant value => pure value
  | .reference scope name => lookup scope name
  | .unary operator operand => do return operator.value (← operand.evaluate)
  | .binary .and left right => do
    if holds (← left.evaluate) then return truth (holds (← right.evaluate)) else return 0
  | .binary .or left right => do
    if holds (← left.evaluate) then return 1 else return truth (holds (← right.evaluate))
  | .binary operator left right => do
    let x ← left.evaluate
    let y ← right.evaluate
    return operator.value x y
  | .conditional condition whenTrue whenFalse => do
    if holds (← condition.evaluate) then whenTrue.evaluate else whenFalse.evaluate
  | .assign operator scope name value => do
    let new ← value.evaluate
    store operator scope name new
  | .sequence statements => evaluateLast statements 0
  | .call function arguments => do
    let values ← evaluateAll arguments
    function.apply drawSample reportOverflow values

/-- The value of the last of the expressions after all of them have run, and `last` if there are
none. -/
def evaluateLast : List Expr → Float32 → m Float32
  | [], last => pure last
  | e :: es, _ => do
    let value ← e.evaluate
    evaluateLast es value

def evaluateAll : List Expr → m (List Float32)
  | [] => pure []
  | e :: es => do
    let value ← e.evaluate
    let values ← evaluateAll es
    return value :: values

end

/-- The value of an expression evaluated on its own, if it is finite. -/
def result? (e : Expr) : m (Option Float32) := do
  prepare
  let value ← e.evaluate
  return if value.isFinite then some value else none

/-- The value of an expression evaluated on its own, zero if it is not finite. -/
def result (e : Expr) : m Float32 := do
  let value ← e.result?
  return value.getD 0

end Expr

/-! ### Checked evaluation -/

/-- What ends an evaluation that is checked. -/
inductive Fault where
  | overflow
deriving DecidableEq, Repr

/-- Checked programs over an environment. -/
abbrev Checked (m : Type → Type) : Type → Type :=
  ExceptT Fault m

/-- All answers are those of the environment that is checked, and an overflow ends the program. -/
instance : Environment (Checked m) where
  resolve scope name := ExceptT.lift (resolve scope name)
  assign scope name value := ExceptT.lift (Environment.assign scope name value)
  drawSample := ExceptT.lift drawSample
  reportMiss scope name := ExceptT.lift (reportMiss scope name)
  reportOverflow := throw .overflow
  prepare := ExceptT.lift prepare

end MotionScript
