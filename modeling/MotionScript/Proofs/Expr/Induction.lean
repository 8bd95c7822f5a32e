import MotionScript.Expr.Basic
/-!
# Induction on expressions

An expression may hold lists of expressions, so the recursor of the type has a motive for lists as
well.  The principle of this module has one case for each kind of node; where a node holds a list,
the case is given the motive for every member of the list.
-/

namespace MotionScript.Expr

/-- What holds of a node whenever it holds of the expressions below the node holds of every
expression. -/
@[elab_as_elim, induction_eliminator]
theorem induction {motive : Expr → Prop}
    (constant : ∀ value, motive (.constant value))
    (reference : ∀ scope name, motive (.reference scope name))
    (unary : ∀ operator operand, motive operand → motive (.unary operator operand))
    (binary : ∀ operator left right, motive left → motive right →
      motive (.binary operator left right))
    (conditional : ∀ condition whenTrue whenFalse, motive condition → motive whenTrue →
      motive whenFalse → motive (.conditional condition whenTrue whenFalse))
    (assign : ∀ operator scope name value, motive value →
      motive (.assign operator scope name value))
    (sequence : ∀ statements, (∀ e ∈ statements, motive e) → motive (.sequence statements))
    (call : ∀ function arguments, (∀ e ∈ arguments, motive e) →
      motive (.call function arguments))
    (e : Expr) : motive e :=
  @Expr.rec motive (fun es => ∀ e ∈ es, motive e)
    constant reference unary binary conditional assign sequence call
    (fun _ hmem => absurd hmem List.not_mem_nil)
    (fun _ _ hhead htail => List.forall_mem_cons.2 ⟨hhead, htail⟩) e

end MotionScript.Expr
