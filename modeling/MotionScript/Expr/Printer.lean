import MotionScript.Expr.Basic
import MotionScript.Number.Decimal
/-!
# Canonical text

Every compound expression is written in parentheses, so the text of a tree can be read back without
knowing any precedence.  Numbers are written without a sign: a negative one is a negation, and a
number that is not finite is a division.  A sequence at the top has no parentheses.
-/

namespace MotionScript.Expr

/-- A constant as an expression that the grammar can read. -/
def constantText (value : Float32) : String :=
  if value.isNaN then "(0 / 0)"
  else if value.isInf then (if Single.isNegative value then "(-1 / 0)" else "(1 / 0)")
  else if Single.isNegative value then "(-" ++ Single.plainText (-value) ++ ")"
  else Single.plainText value

def nameText (scope : Scope) (name : String) : String :=
  scope.keyword ++ "." ++ name

mutual

/-- The text of an expression inside another one. -/
def inner : Expr → String
  | .constant value => constantText value
  | .reference scope name => nameText scope name
  | .unary operator operand => "(" ++ operator.spelling ++ operand.inner ++ ")"
  | .binary operator left right =>
    "(" ++ left.inner ++ " " ++ operator.spelling ++ " " ++ right.inner ++ ")"
  | .conditional condition whenTrue whenFalse =>
    "(" ++ condition.inner ++ " ? " ++ whenTrue.inner ++ " : " ++ whenFalse.inner ++ ")"
  | .assign operator scope name value =>
    "(" ++ nameText scope name ++ " " ++ operator.spelling ++ " " ++ value.inner ++ ")"
  | .sequence statements => "(" ++ innerList "; " statements ++ ")"
  | .call .pi _ => MathFunction.pi.qualifiedName
  | .call function arguments =>
    function.qualifiedName ++ "(" ++ innerList ", " arguments ++ ")"

def innerList (separator : String) : List Expr → String
  | [] => ""
  | [e] => e.inner
  | e :: es => e.inner ++ separator ++ innerList separator es

end

def text : Expr → String
  | .sequence statements => innerList "; " statements
  | e => e.inner

end MotionScript.Expr
