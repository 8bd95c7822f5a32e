import MotionScript.MathFunction
import MotionScript.Scope
/-!
# Expressions

The tree of a source text.  A tree says nothing about how it is run, so one tree can serve any
number of instances.
-/

namespace MotionScript

/-- Operators before an operand. -/
inductive UnaryOp where
  | neg
  /-- One for zero, and zero for anything else. -/
  | not
deriving DecidableEq

/-- Operators between two operands. -/
inductive BinaryOp where
  | add | sub | mul | div
  /-- The remainder, zero for a zero divisor. -/
  | mod
  | eq | ne | lt | le | gt | ge
  /-- Whether both operands differ from zero; the right one is not asked if the left one decides. -/
  | and
  /-- Whether an operand differs from zero; the right one is not asked if the left one decides. -/
  | or
deriving DecidableEq

/-- Operators that store a value. -/
inductive AssignOp where
  | set
  /-- The other operators combine the stored value with the new one. -/
  | add | sub | mul | div
deriving DecidableEq

namespace UnaryOp

def spelling : UnaryOp → String
  | .neg => "-"
  | .not => "!"

end UnaryOp

namespace BinaryOp

def all : List BinaryOp :=
  [.add, .sub, .mul, .div, .mod, .eq, .ne, .lt, .le, .gt, .ge, .and, .or]

def spelling : BinaryOp → String
  | .add => "+"
  | .sub => "-"
  | .mul => "*"
  | .div => "/"
  | .mod => "%"
  | .eq => "=="
  | .ne => "!="
  | .lt => "<"
  | .le => "<="
  | .gt => ">"
  | .ge => ">="
  | .and => "&&"
  | .or => "||"

def ofSpelling? (spelling : String) : Option BinaryOp :=
  all.find? fun operator => operator.spelling == spelling

end BinaryOp

namespace AssignOp

def all : List AssignOp :=
  [.set, .add, .sub, .mul, .div]

def spelling : AssignOp → String
  | .set => "="
  | .add => "+="
  | .sub => "-="
  | .mul => "*="
  | .div => "/="

def ofSpelling? (spelling : String) : Option AssignOp :=
  all.find? fun operator => operator.spelling == spelling

end AssignOp

inductive Expr where
  | constant (value : Float32)
  /-- The value of a name. -/
  | reference (scope : Scope) (name : String)
  | unary (operator : UnaryOp) (operand : Expr)
  | binary (operator : BinaryOp) (left right : Expr)
  /-- One of two expressions, the first if the condition differs from zero. -/
  | conditional (condition whenTrue whenFalse : Expr)
  /-- Stores a value under a name; the value of the expression is what was stored. -/
  | assign (operator : AssignOp) (scope : Scope) (name : String) (value : Expr)
  /-- Expressions run one after the other, of which the last gives the value. -/
  | sequence (statements : List Expr)
  /-- A built-in function applied to arguments. -/
  | call (function : MathFunction) (arguments : List Expr)

namespace Expr

instance : Inhabited Expr := ⟨.constant 0⟩

/-- The constant zero, for what a definition leaves out. -/
def zero : Expr := .constant 0

/-- The constant one, the range of a curve that gives none. -/
def one : Expr := .constant 1

def constant? : Expr → Option Float32
  | .constant value => some value
  | _ => none

mutual

/-- Structural equality that compares constants as numbers: not-a-number differs from itself, and
the two zeros are equal. -/
def agrees : Expr → Expr → Bool
  | .constant x, .constant y => x == y
  | .reference s₁ n₁, .reference s₂ n₂ => s₁ == s₂ && n₁ == n₂
  | .unary o₁ e₁, .unary o₂ e₂ => o₁ == o₂ && agrees e₁ e₂
  | .binary o₁ l₁ r₁, .binary o₂ l₂ r₂ => o₁ == o₂ && agrees l₁ l₂ && agrees r₁ r₂
  | .conditional c₁ t₁ f₁, .conditional c₂ t₂ f₂ => agrees c₁ c₂ && agrees t₁ t₂ && agrees f₁ f₂
  | .assign o₁ s₁ n₁ e₁, .assign o₂ s₂ n₂ e₂ => o₁ == o₂ && s₁ == s₂ && n₁ == n₂ && agrees e₁ e₂
  | .sequence es₁, .sequence es₂ => agreeAll es₁ es₂
  | .call f₁ es₁, .call f₂ es₂ => f₁ == f₂ && agreeAll es₁ es₂
  | _, _ => false

def agreeAll : List Expr → List Expr → Bool
  | [], [] => true
  | e₁ :: es₁, e₂ :: es₂ => agrees e₁ e₂ && agreeAll es₁ es₂
  | _, _ => false

end

instance : BEq Expr := ⟨agrees⟩

mutual

/-- Whether running the expression may draw random samples. -/
def isRandom : Expr → Bool
  | .constant _ | .reference _ _ => false
  | .unary _ operand => operand.isRandom
  | .binary _ left right => left.isRandom || right.isRandom
  | .conditional condition whenTrue whenFalse =>
    condition.isRandom || whenTrue.isRandom || whenFalse.isRandom
  | .assign _ _ _ value => value.isRandom
  | .sequence statements => anyRandom statements
  | .call function arguments => function.isRandom || anyRandom arguments

def anyRandom : List Expr → Bool
  | [] => false
  | e :: es => e.isRandom || anyRandom es

end

/-- A name together with its scope. -/
abbrev Name := Scope × String

mutual

/-- The names that the expression reads, from left to right.  An assignment that combines the stored
value with a new one comes before its value. -/
def reads : Expr → List Name
  | .constant _ => []
  | .reference scope name => [(scope, name)]
  | .unary _ operand => operand.reads
  | .binary _ left right => left.reads ++ right.reads
  | .conditional condition whenTrue whenFalse =>
    condition.reads ++ whenTrue.reads ++ whenFalse.reads
  | .assign operator scope name value =>
    (if operator = .set then [] else [(scope, name)]) ++ value.reads
  | .sequence statements => allReads statements
  | .call _ arguments => allReads arguments

def allReads : List Expr → List Name
  | [] => []
  | e :: es => e.reads ++ allReads es

end

mutual

/-- The names that the expression writes, from left to right, an assignment before its value. -/
def writes : Expr → List Name
  | .constant _ | .reference _ _ => []
  | .unary _ operand => operand.writes
  | .binary _ left right => left.writes ++ right.writes
  | .conditional condition whenTrue whenFalse =>
    condition.writes ++ whenTrue.writes ++ whenFalse.writes
  | .assign _ scope name value => (scope, name) :: value.writes
  | .sequence statements => allWrites statements
  | .call _ arguments => allWrites arguments

def allWrites : List Expr → List Name
  | [] => []
  | e :: es => e.writes ++ allWrites es

end

/-! ### Lists of expressions -/

theorem agreeAll_cons (e₁ e₂ : Expr) (es₁ es₂ : List Expr) :
    agreeAll (e₁ :: es₁) (e₂ :: es₂) = (e₁.agrees e₂ && agreeAll es₁ es₂) := rfl

theorem anyRandom_eq_any (es : List Expr) : anyRandom es = es.any isRandom := by
  induction es with
  | nil => rfl
  | cons e es ih => simp [anyRandom, ih]

theorem allReads_eq_flatMap (es : List Expr) : allReads es = es.flatMap reads := by
  induction es with
  | nil => rfl
  | cons e es ih => simp [allReads, ih]

theorem allWrites_eq_flatMap (es : List Expr) : allWrites es = es.flatMap writes := by
  induction es with
  | nil => rfl
  | cons e es ih => simp [allWrites, ih]

end Expr

end MotionScript
