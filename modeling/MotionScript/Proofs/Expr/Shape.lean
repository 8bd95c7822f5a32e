import MotionScript.Expr.Bind
import MotionScript.Proofs.Expr.WellFormed
/-!
# Well-formed expressions stay well formed

Simplification puts a part of a tree, or a constant, in the place of the whole, and binding puts
constants in the place of names.  Neither moves a sequence below the root or takes an argument from
a call.
-/

namespace MotionScript.Expr

variable {e : Expr}

/-! ### Simplification -/

namespace Nested

theorem foldTo (value : Float32) (hotherwise : Nested e) : Nested (foldTo value e) := by
  rw [Expr.foldTo]
  split
  · exact .constant
  · exact hotherwise

/-- Simplifying keeps a nested expression nested. -/
theorem simplify (hnested : Nested e) : Nested e.simplify := by
  induction hnested with
  | constant => exact .constant
  | reference hname => exact .reference hname
  | unary _ ih =>
      rw [Expr.simplify, foldUnary]
      split
      · exact ih.unary.foldTo _
      · exact ih.unary
  | binary _ _ ihLeft ihRight =>
      rw [Expr.simplify, foldBinary]
      split
      · exact (ihLeft.binary ihRight).foldTo _
      · exact ihLeft.binary ihRight
  | conditional _ _ _ ihCondition ihTrue ihFalse =>
      rw [Expr.simplify, foldConditional]
      split
      · split
        · exact ihTrue
        · exact ihFalse
      · exact ihCondition.conditional ihTrue ihFalse
  | assign hwritable hname _ ih => exact .assign hwritable hname ih
  | @call function arguments harity _ ih =>
      have hcall : Nested (.call function (arguments.map Expr.simplify)) := by
        refine .call (by rw [List.length_map, harity]) ?_
        rw [List.forall_mem_map]
        exact ih
      rw [Expr.simplify, simplifyAll_eq_map, foldCall]
      split
      · exact hcall
      · split
        · exact hcall.foldTo _
        · exact hcall

end Nested

/-- Simplifying keeps a program well formed, also where a sequence shrinks to one statement. -/
theorem WellFormed.simplify (hwellFormed : WellFormed e) : WellFormed e.simplify := by
  cases hwellFormed with
  | nested hnested => exact .nested hnested.simplify
  | @sequence statements hmany hnested =>
      have hkept : foldSequence (statements.map Expr.simplify) =
          .sequence (statements.map Expr.simplify) := by
        match statements, hmany with
        | _ :: _ :: _, _ => rfl
      rw [Expr.simplify, simplifyAll_eq_map, hkept]
      refine .sequence (by rwa [List.length_map]) ?_
      rw [List.forall_mem_map]
      exact fun e hmem => (hnested e hmem).simplify

/-! ### Binding -/

/-- Putting constants in place of names keeps a nested expression nested. -/
theorem Nested.substitute (value? : Name → Option Float32) (hnested : Nested e) :
    Nested (e.substitute value?) := by
  induction hnested with
  | constant => exact .constant
  | reference hname =>
      rw [Expr.substitute]
      split
      · exact .constant
      · exact .reference hname
  | unary _ ih => exact .unary ih
  | binary _ _ ihLeft ihRight => exact .binary ihLeft ihRight
  | conditional _ _ _ ihCondition ihTrue ihFalse => exact .conditional ihCondition ihTrue ihFalse
  | assign hwritable hname _ ih => exact .assign hwritable hname ih
  | call harity _ ih =>
      rw [Expr.substitute, substituteAll_eq_map]
      refine .call (by rw [List.length_map, harity]) ?_
      rw [List.forall_mem_map]
      exact ih

/-- Putting constants in place of names keeps a program well formed. -/
theorem WellFormed.substitute (value? : Name → Option Float32) (hwellFormed : WellFormed e) :
    WellFormed (e.substitute value?) := by
  cases hwellFormed with
  | nested hnested => exact .nested (hnested.substitute value?)
  | sequence hmany hnested =>
      rw [Expr.substitute, substituteAll_eq_map]
      refine .sequence (by rwa [List.length_map]) ?_
      rw [List.forall_mem_map]
      exact fun e hmem => (hnested e hmem).substitute value?

end MotionScript.Expr
