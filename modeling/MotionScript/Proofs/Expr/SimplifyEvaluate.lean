import MotionScript.Context
import MotionScript.Expr.Simplify
import MotionScript.Proofs.Expr.Induction
import MotionScript.Proofs.Environment.Transcript
/-!
# Folding keeps the meaning

An expression and its simplification are the same program over every environment: they make the
same requests in the same order and have the same value.  What is folded away is constant, and a
constant makes no request; a branch that is dropped is one that evaluation would not have entered.
-/

namespace MotionScript.Expr

variable {m : Type → Type} [Monad m] [Environment m] [LawfulMonad m]

/-! ### Evaluation depends on the evaluation of the parts -/

omit [LawfulMonad m] in
theorem evaluate_binary_congr (operator : BinaryOp) {left right left' right' : Expr}
    (hleft : (left.evaluate : m Float32) = left'.evaluate)
    (hright : (right.evaluate : m Float32) = right'.evaluate) :
    ((binary operator left right).evaluate : m Float32) =
      (binary operator left' right').evaluate := by
  cases operator <;> simp only [evaluate, hleft, hright]

omit [LawfulMonad m] in
theorem evaluateAll_map_congr (rewrite : Expr → Expr) (es : List Expr)
    (hrewrite : ∀ e ∈ es, ((rewrite e).evaluate : m Float32) = e.evaluate) :
    (evaluateAll (es.map rewrite) : m (List Float32)) = evaluateAll es := by
  induction es with
  | nil => rfl
  | cons e es ih =>
      rw [List.forall_mem_cons] at hrewrite
      simp only [List.map_cons, evaluateAll, hrewrite.1, ih hrewrite.2]

omit [LawfulMonad m] in
theorem evaluateLast_map_congr (rewrite : Expr → Expr) (es : List Expr) (last : Float32)
    (hrewrite : ∀ e ∈ es, ((rewrite e).evaluate : m Float32) = e.evaluate) :
    (evaluateLast (es.map rewrite) last : m Float32) = evaluateLast es last := by
  induction es generalizing last with
  | nil => rfl
  | cons e es ih =>
      rw [List.forall_mem_cons] at hrewrite
      simp only [List.map_cons, evaluateLast, hrewrite.1, fun value => ih value hrewrite.2]

/-! ### Constants make no request -/

/-- An operator between constants has its value, although the evaluator asks the right operand of a
logical operator only where the left one leaves the value open. -/
theorem evaluate_binary_constant (operator : BinaryOp) (x y : Float32) :
    ((binary operator (.constant x) (.constant y)).evaluate : m Float32) =
      pure (operator.value x y) := by
  cases operator with
  | and => cases hx : holds x <;> simp [evaluate, BinaryOp.value, hx, truth]
  | or => cases hx : holds x <;> simp [evaluate, BinaryOp.value, hx, truth]
  | _ => simp [evaluate]

theorem evaluateAll_constants (values : List Float32) :
    (evaluateAll (values.map .constant) : m (List Float32)) = pure values := by
  induction values with
  | nil => rfl
  | cons value values ih => simp [evaluateAll, evaluate, ih]

/-! ### Folding one node -/

omit [LawfulMonad m] in
/-- Folding to the value that a tree has does not change its evaluation. -/
theorem evaluate_foldTo {value : Float32} {otherwise : Expr}
    (hvalue : (otherwise.evaluate : m Float32) = pure value) :
    ((foldTo value otherwise).evaluate : m Float32) = otherwise.evaluate := by
  rw [foldTo]
  split
  · rw [hvalue, evaluate]
  · rfl

/-- A folded prefix operator is evaluated as before. -/
theorem evaluate_foldUnary (operator : UnaryOp) (operand : Expr) :
    ((foldUnary operator operand).evaluate : m Float32) = (unary operator operand).evaluate := by
  rw [foldUnary]
  split
  next x hoperand =>
    apply evaluate_foldTo
    rw [constant?_eq_some_iff.1 hoperand]
    simp [evaluate]
  next => rfl

/-- A folded operator is evaluated as before: between constants it has no effects. -/
theorem evaluate_foldBinary (operator : BinaryOp) (left right : Expr) :
    ((foldBinary operator left right).evaluate : m Float32) =
      (binary operator left right).evaluate := by
  rw [foldBinary]
  split
  next x y hleft hright =>
    apply evaluate_foldTo
    rw [constant?_eq_some_iff.1 hleft, constant?_eq_some_iff.1 hright]
    exact evaluate_binary_constant operator x y
  next => rfl

/-- A folded conditional is evaluated as before, since the other branch was never asked. -/
theorem evaluate_foldConditional (condition whenTrue whenFalse : Expr) :
    ((foldConditional condition whenTrue whenFalse).evaluate : m Float32) =
      (conditional condition whenTrue whenFalse).evaluate := by
  rw [foldConditional]
  split
  next x hcondition =>
    rw [constant?_eq_some_iff.1 hcondition]
    cases hx : holds x <;> simp [evaluate, hx]
  next => rfl

/-- A folded sequence is evaluated as before: one statement alone is its own last value. -/
theorem evaluate_foldSequence (es : List Expr) :
    ((foldSequence es).evaluate : m Float32) = (sequence es).evaluate := by
  simp only [foldSequence]
  split
  · simp [evaluate, evaluateLast]
  · rfl

/-- A folded call is evaluated as before. Calls that draw samples are not folded. -/
theorem evaluate_foldCall (function : MathFunction) (arguments : List Expr) :
    ((foldCall function arguments).evaluate : m Float32) =
      (call function arguments).evaluate := by
  rw [foldCall]
  split
  next => rfl
  next hplain =>
    split
    next values hvalues =>
      apply evaluate_foldTo
      have happly := MathFunction.apply_of_not_isRandom (Environment.drawSample : m Float32)
        Environment.reportOverflow (Bool.eq_false_iff.2 hplain) values
      rw [constants?_eq_some_iff.1 hvalues]
      simp only [evaluate, evaluateAll_constants, pure_bind, happly]
    next => rfl

/-! ### Folding a tree -/

/-- In every lawful environment, a tree and its simplified form run the same requests to the same
value. -/
theorem evaluate_simplify (e : Expr) : (e.simplify.evaluate : m Float32) = e.evaluate := by
  induction e with
  | constant value => rfl
  | reference scope name => rfl
  | unary operator operand ih =>
      rw [simplify, evaluate_foldUnary]
      simp only [evaluate, ih]
  | binary operator left right ihLeft ihRight =>
      rw [simplify, evaluate_foldBinary]
      exact evaluate_binary_congr operator ihLeft ihRight
  | conditional condition whenTrue whenFalse ihCondition ihTrue ihFalse =>
      rw [simplify, evaluate_foldConditional]
      simp only [evaluate, ihCondition, ihTrue, ihFalse]
  | assign operator scope name value ih =>
      rw [simplify]
      simp only [evaluate, ih]
  | sequence statements ih =>
      rw [simplify, evaluate_foldSequence, simplifyAll_eq_map]
      simp only [evaluate, evaluateLast_map_congr simplify statements 0 ih]
  | call function arguments ih =>
      rw [simplify, evaluate_foldCall, simplifyAll_eq_map]
      simp only [evaluate, evaluateAll_map_congr simplify arguments ih]

/-- A tree that folds to a constant makes no request. -/
theorem evaluate_of_simplify_eq_constant {e : Expr} {value : Float32}
    (hfold : e.simplify = .constant value) : (e.evaluate : m Float32) = pure value := by
  rw [← evaluate_simplify, hfold, evaluate]

/-- Whatever an expression is evaluated in, its simplification makes the same requests with the same
arguments in the same order, has the same value, and leaves the environment in the same state. -/
theorem transcript_simplify (e : Expr) (transcript : List Request) :
    (e.simplify.evaluate : Transcribed m Float32).run transcript =
      (e.evaluate : Transcribed m Float32).run transcript := by
  rw [evaluate_simplify]

/-- A sample is still drawn for the bounds of a die, and a write to a query that simplification
keeps is still asked for. -/
theorem transcript_simplify_kept_effects :
    LawfulMonad (StateM Session) ∧
      ((sequence [conditional (.constant 0) (.reference .query "age")
            (assign .add .query "age" (call .random [binary .div (.constant 0) (.constant 0)])),
          sequence []]).simplify.evaluate : Transcribed (StateM Session) Float32).run [] =
        ((sequence [conditional (.constant 0) (.reference .query "age")
            (assign .add .query "age" (call .random [binary .div (.constant 0) (.constant 0)])),
          sequence []]).evaluate : Transcribed (StateM Session) Float32).run [] :=
  ⟨inferInstance, transcript_simplify _ []⟩

end MotionScript.Expr
