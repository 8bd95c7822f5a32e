import MotionScript.Expr.Basic
import MotionScript.Table
/-!
# Binding

A template is specialized for one instance by putting constants in place of names.  A name that the
expression writes anywhere keeps its references, because its value may change on the way.
-/

namespace MotionScript

/-- Where the value of a bound name comes from. -/
inductive Binder where
  | constant (value : Float32)
  /-- One of the values given at the time of binding. -/
  | argument (index : Nat)
deriving DecidableEq

/-- The value of a binder among the given values; an argument may be out of range. -/
def Binder.value? (values : List Float32) : Binder → Option Float32
  | .constant value => some value
  | .argument index => values[index]?

abbrev Binders := Table Expr.Name Binder

namespace Expr

mutual

/-- The expression with constants for the references that have a value. -/
def substitute (value? : Name → Option Float32) : Expr → Expr
  | .constant value => .constant value
  | .reference scope name =>
    match value? (scope, name) with
    | some value => .constant value
    | none => .reference scope name
  | .unary operator operand => .unary operator (operand.substitute value?)
  | .binary operator left right =>
    .binary operator (left.substitute value?) (right.substitute value?)
  | .conditional condition whenTrue whenFalse =>
    .conditional (condition.substitute value?) (whenTrue.substitute value?)
      (whenFalse.substitute value?)
  | .assign operator scope name value => .assign operator scope name (value.substitute value?)
  | .sequence statements => .sequence (substituteAll value? statements)
  | .call function arguments => .call function (substituteAll value? arguments)

def substituteAll (value? : Name → Option Float32) : List Expr → List Expr
  | [] => []
  | e :: es => e.substitute value? :: substituteAll value? es

end

/-- The value that binding puts in place of a name in an expression that writes `written`. -/
def boundValue? (binders : Binders) (values : List Float32) (written : List Name) (name : Name) :
    Option Float32 :=
  if name ∈ written then none else (binders.get? name).bind (Binder.value? values)

/-- The expression with its bound names replaced by their values. -/
def bind (binders : Binders) (values : List Float32) (e : Expr) : Expr :=
  e.substitute (boundValue? binders values e.writes)

theorem substituteAll_eq_map (value? : Name → Option Float32) (es : List Expr) :
    substituteAll value? es = es.map (substitute value?) := by
  induction es with
  | nil => rfl
  | cons e es ih => simp [substituteAll, ih]

end Expr

end MotionScript
