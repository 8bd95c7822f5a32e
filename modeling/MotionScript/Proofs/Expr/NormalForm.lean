import MotionScript.Expr.Simplify
import MotionScript.Proofs.Expr.Induction
import MotionScript.Proofs.Expr.Subtree
/-!
# Simplified expressions are normal

A redex is a node that simplification has a rule for.  One pass from the leaves up leaves none: a
folded node is a constant, which is no redex anywhere, and a branch or a statement that takes the
place of a node has been simplified before.  Where there is no redex, simplification changes
nothing.
-/

namespace MotionScript.Expr

/-- A node that simplification would replace. -/
inductive Redex : Expr → Prop
  | unary {operator : UnaryOp} {x : Float32} (hfinite : (operator.value x).isFinite = true) :
      Redex (.unary operator (.constant x))
  | binary {operator : BinaryOp} {x y : Float32}
      (hfinite : (operator.value x y).isFinite = true) :
      Redex (.binary operator (.constant x) (.constant y))
  | call {function : MathFunction} {values : List Float32} (hplain : function.isRandom = false)
      (hfinite : (function.value values).isFinite = true) :
      Redex (.call function (values.map .constant))
  | conditional {x : Float32} {whenTrue whenFalse : Expr} :
      Redex (.conditional (.constant x) whenTrue whenFalse)
  | sequence {e : Expr} : Redex (.sequence [e])

/-- No part of the expression is a redex. -/
def IsNormal (e : Expr) : Prop :=
  ∀ part, Occurs part e → ¬ part.Redex

theorem isNormal_iff {e : Expr} :
    e.IsNormal ↔ ¬ e.Redex ∧ ∀ child ∈ e.children, child.IsNormal :=
  forall_occurs_iff

theorem isNormal_constant (value : Float32) : (constant value).IsNormal :=
  isNormal_iff.2 ⟨nofun, nofun⟩

/-! ### Folding one node -/

theorem foldTo_of_not_finite {value : Float32} {otherwise : Expr}
    (hvalue : ¬ value.isFinite = true) : foldTo value otherwise = otherwise :=
  if_neg hvalue

/-- A prefix operator that is no redex is put back as it was. -/
theorem foldUnary_of_not_redex {operator : UnaryOp} {operand : Expr}
    (hredex : ¬ (unary operator operand).Redex) :
    foldUnary operator operand = .unary operator operand := by
  rw [foldUnary]
  split
  next x hoperand =>
    cases constant?_eq_some_iff.1 hoperand
    exact foldTo_of_not_finite fun hfinite => hredex (.unary hfinite)
  next => rfl

/-- An operator that is no redex is put back as it was. -/
theorem foldBinary_of_not_redex {operator : BinaryOp} {left right : Expr}
    (hredex : ¬ (binary operator left right).Redex) :
    foldBinary operator left right = .binary operator left right := by
  rw [foldBinary]
  split
  next x y hleft hright =>
    cases constant?_eq_some_iff.1 hleft
    cases constant?_eq_some_iff.1 hright
    exact foldTo_of_not_finite fun hfinite => hredex (.binary hfinite)
  next => rfl

/-- A conditional that is no redex is put back as it was. -/
theorem foldConditional_of_not_redex {condition whenTrue whenFalse : Expr}
    (hredex : ¬ (conditional condition whenTrue whenFalse).Redex) :
    foldConditional condition whenTrue whenFalse = .conditional condition whenTrue whenFalse := by
  rw [foldConditional]
  split
  next x hcondition =>
    cases constant?_eq_some_iff.1 hcondition
    exact absurd .conditional hredex
  next => rfl

theorem foldSequence_of_not_redex {statements : List Expr}
    (hredex : ¬ (sequence statements).Redex) :
    foldSequence statements = .sequence statements := by
  match statements with
  | [e] => exact absurd .sequence hredex
  | [] => rfl
  | _ :: _ :: _ => rfl

/-- A call that is no redex is put back as it was. -/
theorem foldCall_of_not_redex {function : MathFunction} {arguments : List Expr}
    (hredex : ¬ (call function arguments).Redex) :
    foldCall function arguments = .call function arguments := by
  rw [foldCall]
  split
  next => rfl
  next hplain =>
    split
    next values hvalues =>
      cases constants?_eq_some_iff.1 hvalues
      have hplain := Bool.eq_false_iff.2 hplain
      exact foldTo_of_not_finite fun hfinite => hredex (.call hplain hfinite)
    next => rfl

/-! ### Folding a node above normal expressions -/

theorem isNormal_foldTo {value : Float32} (hfinite : value.isFinite = true) (otherwise : Expr) :
    (foldTo value otherwise).IsNormal := by
  rw [foldTo, if_pos hfinite]
  exact isNormal_constant value

theorem isNormal_foldUnary {operator : UnaryOp} {operand : Expr} (hoperand : operand.IsNormal) :
    (foldUnary operator operand).IsNormal := by
  by_cases hredex : (unary operator operand).Redex
  · cases hredex with
    | unary hfinite => exact isNormal_foldTo hfinite _
  · rw [foldUnary_of_not_redex hredex]
    exact isNormal_iff.2 ⟨hredex, by simpa [children] using hoperand⟩

theorem isNormal_foldBinary {operator : BinaryOp} {left right : Expr} (hleft : left.IsNormal)
    (hright : right.IsNormal) : (foldBinary operator left right).IsNormal := by
  by_cases hredex : (binary operator left right).Redex
  · cases hredex with
    | binary hfinite => exact isNormal_foldTo hfinite _
  · rw [foldBinary_of_not_redex hredex]
    exact isNormal_iff.2 ⟨hredex, by simpa [children] using ⟨hleft, hright⟩⟩

/-- Over normal parts, folding a conditional leaves a normal tree: one of the branches, or the
conditional with a condition that is not known. -/
theorem isNormal_foldConditional {condition whenTrue whenFalse : Expr}
    (hcondition : condition.IsNormal) (hwhenTrue : whenTrue.IsNormal)
    (hwhenFalse : whenFalse.IsNormal) :
    (foldConditional condition whenTrue whenFalse).IsNormal := by
  by_cases hredex : (conditional condition whenTrue whenFalse).Redex
  · cases hredex with
    | @conditional x =>
        rw [show foldConditional (.constant x) whenTrue whenFalse =
          if holds x then whenTrue else whenFalse from rfl]
        split
        · exact hwhenTrue
        · exact hwhenFalse
  · rw [foldConditional_of_not_redex hredex]
    exact isNormal_iff.2
      ⟨hredex, by simpa [children] using ⟨hcondition, hwhenTrue, hwhenFalse⟩⟩

theorem isNormal_foldSequence {statements : List Expr}
    (hstatements : ∀ e ∈ statements, e.IsNormal) : (foldSequence statements).IsNormal := by
  by_cases hredex : (sequence statements).Redex
  · cases hredex
    exact hstatements _ (List.mem_singleton_self _)
  · rw [foldSequence_of_not_redex hredex]
    exact isNormal_iff.2 ⟨hredex, hstatements⟩

/-- Over normal arguments, folding a call leaves a normal tree. -/
theorem isNormal_foldCall {function : MathFunction} {arguments : List Expr}
    (harguments : ∀ e ∈ arguments, e.IsNormal) : (foldCall function arguments).IsNormal := by
  by_cases hredex : (call function arguments).Redex
  · generalize hcall : call function arguments = e at hredex
    cases hredex <;> cases hcall
    next values hplain hfinite =>
      rw [foldCall, hplain, if_neg Bool.false_ne_true, constants?_eq_some_iff.2 rfl]
      exact isNormal_foldTo hfinite _
  · rw [foldCall_of_not_redex hredex]
    exact isNormal_iff.2 ⟨hredex, harguments⟩

/-! ### Simplifying a tree -/

/-- Whatever a tree holds, no redex is left once it is simplified. -/
theorem isNormal_simplify (e : Expr) : e.simplify.IsNormal := by
  induction e with
  | constant value => exact isNormal_constant value
  | reference scope name => exact isNormal_iff.2 ⟨nofun, nofun⟩
  | unary operator operand ih => exact isNormal_foldUnary ih
  | binary operator left right ihLeft ihRight => exact isNormal_foldBinary ihLeft ihRight
  | conditional condition whenTrue whenFalse ihCondition ihTrue ihFalse =>
      exact isNormal_foldConditional ihCondition ihTrue ihFalse
  | assign operator scope name value ih =>
      rw [simplify]
      exact isNormal_iff.2 ⟨nofun, by simpa [children] using ih⟩
  | sequence statements ih =>
      rw [simplify, simplifyAll_eq_map]
      exact isNormal_foldSequence (List.forall_mem_map.2 ih)
  | call function arguments ih =>
      rw [simplify, simplifyAll_eq_map]
      exact isNormal_foldCall (List.forall_mem_map.2 ih)

theorem simplifyAll_eq_self {es : List Expr} (hes : ∀ e ∈ es, e.simplify = e) :
    simplifyAll es = es := by
  rw [simplifyAll_eq_map, List.map_congr_left hes, List.map_id']

/-- A tree without a redex is simplified to itself. -/
theorem simplify_of_isNormal {e : Expr} (hnormal : e.IsNormal) : e.simplify = e := by
  induction e with
  | constant value => rfl
  | reference scope name => rfl
  | unary operator operand ih =>
      obtain ⟨hredex, hchildren⟩ := isNormal_iff.1 hnormal
      rw [simplify, ih (hchildren _ (by simp [children])), foldUnary_of_not_redex hredex]
  | binary operator left right ihLeft ihRight =>
      obtain ⟨hredex, hchildren⟩ := isNormal_iff.1 hnormal
      rw [simplify, ihLeft (hchildren _ (by simp [children])),
        ihRight (hchildren _ (by simp [children])), foldBinary_of_not_redex hredex]
  | conditional condition whenTrue whenFalse ihCondition ihTrue ihFalse =>
      obtain ⟨hredex, hchildren⟩ := isNormal_iff.1 hnormal
      rw [simplify, ihCondition (hchildren _ (by simp [children])),
        ihTrue (hchildren _ (by simp [children])), ihFalse (hchildren _ (by simp [children])),
        foldConditional_of_not_redex hredex]
  | assign operator scope name value ih =>
      obtain ⟨_, hchildren⟩ := isNormal_iff.1 hnormal
      rw [simplify, ih (hchildren _ (by simp [children]))]
  | sequence statements ih =>
      obtain ⟨hredex, hchildren⟩ := isNormal_iff.1 hnormal
      rw [simplify, simplifyAll_eq_self fun e hmem => ih e hmem (hchildren e hmem),
        foldSequence_of_not_redex hredex]
  | call function arguments ih =>
      obtain ⟨hredex, hchildren⟩ := isNormal_iff.1 hnormal
      rw [simplify, simplifyAll_eq_self fun e hmem => ih e hmem (hchildren e hmem),
        foldCall_of_not_redex hredex]

/-- One pass leaves no redex anywhere in the tree, and a tree without a redex stays as it is, bit by
bit; so another pass changes nothing. -/
theorem simplify_normalizes (e : Expr) :
    e.simplify.IsNormal ∧ (e.IsNormal → e.simplify = e) ∧ e.simplify.simplify = e.simplify :=
  ⟨isNormal_simplify e, simplify_of_isNormal, simplify_of_isNormal (isNormal_simplify e)⟩

/-- A quotient that is not finite, a sample between equal bounds and an empty sequence stay. -/
theorem simplify_normalizes_kept :
    (sequence [.binary .div (.constant 1) (.constant 0),
        .call .random [.constant 2, .constant 2], .sequence []]).IsNormal ∧
      (sequence [.binary .div (.constant 1) (.constant 0),
        .call .random [.constant 2, .constant 2], .sequence []]).simplify =
        .sequence [.binary .div (.constant 1) (.constant 0),
          .call .random [.constant 2, .constant 2], .sequence []] := by
  have hnormal : (sequence [.binary .div (.constant 1) (.constant 0),
      .call .random [.constant 2, .constant 2], .sequence []]).IsNormal :=
    isNormal_simplify (.sequence [.binary .div (.constant 1) (.unary .not (.constant 5)),
      .conditional (.constant 0) (.constant 3) (.call .random [.constant 2, .constant 2]),
      .sequence []])
  exact ⟨hnormal, (simplify_normalizes _).2.1 hnormal⟩

end MotionScript.Expr
