import MotionScript.Expr.Simplify
import MotionScript.Proofs.Expr.Induction
import MotionScript.Proofs.Token.Spelling
/-!
# Expressions that can be written down

A tree is well formed if the grammar has a place for each of its nodes: only a whole program is a
sequence, only writable names are assigned to, and calls have the arguments that the function takes.
The text of such a tree is the text of another one if there are constants that no numeral stands
for.
-/

namespace MotionScript.Expr

/-- An expression that may stand inside another one. -/
inductive Nested : Expr → Prop
  | constant {value : Float32} : Nested (.constant value)
  | reference {scope : Scope} {name : String} :
      Token.isName name.toList = true → Nested (.reference scope name)
  | unary {operator : UnaryOp} {operand : Expr} :
      Nested operand → Nested (.unary operator operand)
  | binary {operator : BinaryOp} {left right : Expr} :
      Nested left → Nested right → Nested (.binary operator left right)
  | conditional {condition whenTrue whenFalse : Expr} :
      Nested condition → Nested whenTrue → Nested whenFalse →
        Nested (.conditional condition whenTrue whenFalse)
  | assign {operator : AssignOp} {scope : Scope} {name : String} {value : Expr} :
      scope = .variable ∨ scope = .temp → Token.isName name.toList = true → Nested value →
        Nested (.assign operator scope name value)
  | call {function : MathFunction} {arguments : List Expr} :
      arguments.length = function.arity → (∀ e ∈ arguments, Nested e) →
        Nested (.call function arguments)

/-- An expression that may be a whole program. -/
inductive WellFormed : Expr → Prop
  | nested {e : Expr} : Nested e → WellFormed e
  | sequence {statements : List Expr} :
      2 ≤ statements.length → (∀ e ∈ statements, Nested e) → WellFormed (.sequence statements)

mutual

/-- The number of edges on the longest way from the expression down to a leaf. -/
def height : Expr → Nat
  | .constant _ | .reference _ _ => 0
  | .unary _ operand => operand.height + 1
  | .binary _ left right => max left.height right.height + 1
  | .conditional condition whenTrue whenFalse =>
    max condition.height (max whenTrue.height whenFalse.height) + 1
  | .assign _ _ _ value => value.height + 1
  | .sequence statements => heightAbove statements
  | .call _ arguments => heightAbove arguments

/-- The height of a node above the expressions; without any, the node is a leaf. -/
def heightAbove : List Expr → Nat
  | [] => 0
  | e :: es => max (e.height + 1) (heightAbove es)

end

mutual

def constants : Expr → List Float32
  | .constant value => [value]
  | .reference _ _ => []
  | .unary _ operand => operand.constants
  | .binary _ left right => left.constants ++ right.constants
  | .conditional condition whenTrue whenFalse =>
    condition.constants ++ whenTrue.constants ++ whenFalse.constants
  | .assign _ _ _ value => value.constants
  | .sequence statements => allConstants statements
  | .call _ arguments => allConstants arguments

def allConstants : List Expr → List Float32
  | [] => []
  | e :: es => e.constants ++ allConstants es

end

/-- The expression that the text of a constant is read as.  Numerals have no sign and are finite. -/
def rereadConstant (value : Float32) : Expr :=
  if value.isNaN then .binary .div (.constant 0) (.constant 0)
  else if value.isInf then
    if Single.isNegative value then .binary .div (.unary .neg (.constant 1)) (.constant 0)
    else .binary .div (.constant 1) (.constant 0)
  else if Single.isNegative value then .unary .neg (.constant (-value))
  else .constant value

mutual

/-- The expression that the text of the expression is read as. -/
def reread : Expr → Expr
  | .constant value => rereadConstant value
  | .reference scope name => .reference scope name
  | .unary operator operand => .unary operator operand.reread
  | .binary operator left right => .binary operator left.reread right.reread
  | .conditional condition whenTrue whenFalse =>
    .conditional condition.reread whenTrue.reread whenFalse.reread
  | .assign operator scope name value => .assign operator scope name value.reread
  | .sequence statements => .sequence (rereadAll statements)
  | .call function arguments => .call function (rereadAll arguments)

def rereadAll : List Expr → List Expr
  | [] => []
  | e :: es => e.reread :: rereadAll es

end

/-! ### Lists of expressions -/

theorem heightAbove_le_iff {es : List Expr} {bound : Nat} :
    heightAbove es ≤ bound ↔ ∀ e ∈ es, e.height + 1 ≤ bound := by
  induction es with
  | nil => simp [heightAbove]
  | cons e es ih => rw [heightAbove, Nat.max_le, ih, List.forall_mem_cons]

theorem allConstants_eq_flatMap (es : List Expr) : allConstants es = es.flatMap constants := by
  induction es with
  | nil => rfl
  | cons e es ih => simp [allConstants, ih]

theorem rereadAll_eq_map (es : List Expr) : rereadAll es = es.map reread := by
  induction es with
  | nil => rfl
  | cons e es ih => simp [rereadAll, ih]

/-! ### Simplifying what is read -/

/-- The signs that the text of a finite constant has put before it are folded again. -/
theorem simplify_rereadConstant {value : Float32} (hfinite : value.isFinite = true) :
    (rereadConstant value).simplify = .constant value := by
  obtain ⟨hnumber, hbounded⟩ := (Single.isFinite_iff value).1 hfinite
  rw [rereadConstant, hnumber, hbounded, if_neg Bool.false_ne_true, if_neg Bool.false_ne_true]
  split
  · change foldTo (-(-value)) _ = _
    rw [Single.neg_neg, foldTo, if_pos hfinite]
  · rfl

/-- Expressions with finite constants are read back as ones that simplify to the same. -/
theorem simplifyAll_rereadAll {es : List Expr}
    (hsimplify : ∀ e ∈ es, (∀ value ∈ e.constants, value.isFinite = true) →
      e.reread.simplify = e.simplify)
    (hfinite : ∀ value ∈ allConstants es, value.isFinite = true) :
    simplifyAll (rereadAll es) = simplifyAll es := by
  rw [simplifyAll_eq_map, simplifyAll_eq_map, rereadAll_eq_map, List.map_map]
  apply List.map_congr_left
  intro e hmem
  apply hsimplify e hmem
  intro value hvalue
  apply hfinite
  rw [allConstants_eq_flatMap]
  exact List.mem_flatMap_of_mem hmem hvalue

/-- What is read is simplified to the same expression, bit by bit. -/
theorem simplify_reread {e : Expr} (hfinite : ∀ value ∈ e.constants, value.isFinite = true) :
    e.reread.simplify = e.simplify := by
  induction e with
  | constant value => exact simplify_rereadConstant (hfinite value (List.mem_singleton_self value))
  | reference scope name => rfl
  | unary operator operand ih => rw [reread, simplify, simplify, ih hfinite]
  | binary operator left right ihLeft ihRight =>
      simp only [constants, List.forall_mem_append] at hfinite
      rw [reread, simplify, simplify, ihLeft hfinite.1, ihRight hfinite.2]
  | conditional condition whenTrue whenFalse ihCondition ihTrue ihFalse =>
      simp only [constants, List.forall_mem_append] at hfinite
      rw [reread, simplify, simplify, ihCondition hfinite.1.1, ihTrue hfinite.1.2,
        ihFalse hfinite.2]
  | assign operator scope name value ih => rw [reread, simplify, simplify, ih hfinite]
  | sequence statements ih => rw [reread, simplify, simplify, simplifyAll_rereadAll ih hfinite]
  | call function arguments ih => rw [reread, simplify, simplify, simplifyAll_rereadAll ih hfinite]

end MotionScript.Expr
