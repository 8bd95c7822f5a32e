import MotionScript.Expr.Bind
import MotionScript.Expr.Simplify
import MotionScript.Proofs.Expr.Induction
/-!
# Rewriting and randomness

Binding puts constants in the place of names and leaves every call where it is, so it changes
nothing about whether an expression is random.  Simplification can drop a random branch but brings
no call in.
-/

namespace MotionScript.Expr

/-! ### Binding -/

/-- Putting constants in place of names neither adds nor removes a random function. -/
theorem isRandom_substitute (value? : Name → Option Float32) (e : Expr) :
    (e.substitute value?).isRandom = e.isRandom := by
  have hany {es : List Expr} (ih : ∀ e ∈ es, (e.substitute value?).isRandom = e.isRandom) :
      anyRandom (substituteAll value? es) = anyRandom es := by
    rw [substituteAll_eq_map, anyRandom_eq_any, anyRandom_eq_any, List.any_map]
    apply Bool.eq_iff_iff.2
    simp only [List.any_eq_true, Function.comp_apply]
    exact exists_congr fun e => and_congr_right fun he => by rw [ih e he]
  induction e with
  | constant value => rfl
  | reference scope name =>
      rw [substitute]
      split <;> rfl
  | unary operator operand ih => exact ih
  | binary operator left right ihLeft ihRight =>
      rw [substitute, isRandom, isRandom, ihLeft, ihRight]
  | conditional condition whenTrue whenFalse ihCondition ihTrue ihFalse =>
      rw [substitute, isRandom, isRandom, ihCondition, ihTrue, ihFalse]
  | assign operator scope name value ih => exact ih
  | sequence statements ih => exact hany ih
  | call function arguments ih => rw [substitute, isRandom, isRandom, hany ih]

theorem isRandom_bind (binders : Binders) (values : List Float32) (e : Expr) :
    (e.bind binders values).isRandom = e.isRandom :=
  isRandom_substitute _ e

/-! ### Simplification -/

variable {e : Expr}

theorem not_isRandom_foldTo (value : Float32) (hotherwise : e.isRandom = false) :
    (foldTo value e).isRandom = false := by
  rw [foldTo]
  split
  · rfl
  · exact hotherwise

theorem not_isRandom_foldUnary (operator : UnaryOp) (hoperand : e.isRandom = false) :
    (foldUnary operator e).isRandom = false := by
  rw [foldUnary]
  split
  · exact not_isRandom_foldTo _ hoperand
  · exact hoperand

/-- Folding an operator does not make it random. -/
theorem not_isRandom_foldBinary (operator : BinaryOp) {left right : Expr}
    (hleft : left.isRandom = false) (hright : right.isRandom = false) :
    (foldBinary operator left right).isRandom = false := by
  have hboth : (binary operator left right).isRandom = false := by
    rw [isRandom, hleft, hright, Bool.or_false]
  rw [foldBinary]
  split
  · exact not_isRandom_foldTo _ hboth
  · exact hboth

/-- Folding a conditional does not make it random. -/
theorem not_isRandom_foldConditional {condition whenTrue whenFalse : Expr}
    (hcondition : condition.isRandom = false) (htrue : whenTrue.isRandom = false)
    (hfalse : whenFalse.isRandom = false) :
    (foldConditional condition whenTrue whenFalse).isRandom = false := by
  rw [foldConditional]
  split
  · split
    · exact htrue
    · exact hfalse
  · rw [isRandom, hcondition, htrue, hfalse, Bool.or_false, Bool.or_false]

theorem not_isRandom_foldSequence {statements : List Expr}
    (hstatements : anyRandom statements = false) : (foldSequence statements).isRandom = false := by
  match statements with
  | [] => rfl
  | [e] => rwa [anyRandom, anyRandom, Bool.or_false] at hstatements
  | _ :: _ :: _ => exact hstatements

/-- Folding a call does not make it random. -/
theorem not_isRandom_foldCall {function : MathFunction} {arguments : List Expr}
    (hcall : (call function arguments).isRandom = false) :
    (foldCall function arguments).isRandom = false := by
  rw [foldCall]
  split
  · exact hcall
  · split
    · exact not_isRandom_foldTo _ hcall
    · exact hcall

/-- Simplification makes nothing random. -/
theorem not_isRandom_simplify (hplain : e.isRandom = false) : e.simplify.isRandom = false := by
  have hany {es : List Expr} (hes : anyRandom es = false)
      (ih : ∀ e ∈ es, e.isRandom = false → e.simplify.isRandom = false) :
      anyRandom (simplifyAll es) = false := by
    rw [anyRandom_eq_any, List.any_eq_false] at hes
    rw [simplifyAll_eq_map, anyRandom_eq_any, List.any_map, List.any_eq_false]
    intro e he
    exact Bool.eq_false_iff.1 (ih e he (Bool.eq_false_iff.2 (hes e he)))
  induction e with
  | constant value => rfl
  | reference scope name => rfl
  | unary operator operand ih => exact not_isRandom_foldUnary operator (ih hplain)
  | binary operator left right ihLeft ihRight =>
      simp only [isRandom, Bool.or_eq_false_iff] at hplain
      exact not_isRandom_foldBinary operator (ihLeft hplain.1) (ihRight hplain.2)
  | conditional condition whenTrue whenFalse ihCondition ihTrue ihFalse =>
      simp only [isRandom, Bool.or_eq_false_iff] at hplain
      exact not_isRandom_foldConditional (ihCondition hplain.1.1) (ihTrue hplain.1.2)
        (ihFalse hplain.2)
  | assign operator scope name value ih => exact ih hplain
  | sequence statements ih => exact not_isRandom_foldSequence (hany hplain ih)
  | call function arguments ih =>
      simp only [isRandom, Bool.or_eq_false_iff] at hplain
      apply not_isRandom_foldCall
      rw [isRandom, hplain.1, hany hplain.2 ih, Bool.or_false]

end MotionScript.Expr
