import MotionScript.Expr.Operator
/-!
# Simplification

Constant subtrees are folded from the leaves up.  A node is folded if its children are constants
and its value is finite; a conditional with a constant condition becomes one of its branches.  What
could have an effect stays: assignments, references and random functions.
-/

namespace MotionScript.Expr

/-- The constant `value` if it is finite, and otherwise the expression that has this value. -/
def foldTo (value : Float32) (otherwise : Expr) : Expr :=
  if value.isFinite then .constant value else otherwise

def constants? : List Expr → Option (List Float32)
  | [] => some []
  | e :: es => do
    let value ← e.constant?
    let values ← constants? es
    return value :: values

theorem constant?_eq_some_iff {e : Expr} {value : Float32} :
    e.constant? = some value ↔ e = .constant value := by
  cases e <;> simp [constant?]

/-- Constants are found exactly where all expressions are constants. -/
theorem constants?_eq_some_iff {es : List Expr} {values : List Float32} :
    constants? es = some values ↔ es = values.map .constant := by
  induction es generalizing values with
  | nil => simp [constants?, eq_comm]
  | cons e es ih =>
      simp only [constants?, Option.bind_eq_bind, Option.bind_eq_some_iff, constant?_eq_some_iff,
        ih]
      constructor
      · rintro ⟨value, rfl, rest, rfl, hvalues⟩
        cases hvalues
        rfl
      · intro hconstants
        cases values with
        | nil => cases hconstants
        | cons value rest =>
            cases hconstants
            exact ⟨value, rfl, rest, rfl, rfl⟩

def foldUnary (operator : UnaryOp) (operand : Expr) : Expr :=
  match operand.constant? with
  | some x => foldTo (operator.value x) (.unary operator operand)
  | none => .unary operator operand

def foldBinary (operator : BinaryOp) (left right : Expr) : Expr :=
  match left.constant?, right.constant? with
  | some x, some y => foldTo (operator.value x y) (.binary operator left right)
  | _, _ => .binary operator left right

def foldConditional (condition whenTrue whenFalse : Expr) : Expr :=
  match condition.constant? with
  | some x => if holds x then whenTrue else whenFalse
  | none => .conditional condition whenTrue whenFalse

/-- A sequence of one expression is that expression. -/
def foldSequence : List Expr → Expr
  | [e] => e
  | es => .sequence es

def foldCall (function : MathFunction) (arguments : List Expr) : Expr :=
  if function.isRandom then .call function arguments
  else
    match constants? arguments with
    | some values => foldTo (function.value values) (.call function arguments)
    | none => .call function arguments

mutual

/-- The expression with its constant parts folded. -/
def simplify : Expr → Expr
  | .constant value => .constant value
  | .reference scope name => .reference scope name
  | .unary operator operand => foldUnary operator operand.simplify
  | .binary operator left right => foldBinary operator left.simplify right.simplify
  | .conditional condition whenTrue whenFalse =>
    foldConditional condition.simplify whenTrue.simplify whenFalse.simplify
  | .assign operator scope name value => .assign operator scope name value.simplify
  | .sequence statements => foldSequence (simplifyAll statements)
  | .call function arguments => foldCall function (simplifyAll arguments)

def simplifyAll : List Expr → List Expr
  | [] => []
  | e :: es => e.simplify :: simplifyAll es

end

theorem simplifyAll_eq_map (es : List Expr) : simplifyAll es = es.map simplify := by
  induction es with
  | nil => rfl
  | cons e es ih => simp [simplifyAll, ih]

end MotionScript.Expr
