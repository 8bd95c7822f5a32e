import MotionScript.Proofs.Expr.Induction
/-!
# The parts of an expression

What stands directly below the root of a tree, what stands anywhere in it, and the ways down from
the root to a leaf.
-/

namespace MotionScript.Expr

/-- The expressions directly below the root, from left to right. -/
def children : Expr → List Expr
  | .constant _ | .reference _ _ => []
  | .unary _ operand => [operand]
  | .binary _ left right => [left, right]
  | .conditional condition whenTrue whenFalse => [condition, whenTrue, whenFalse]
  | .assign _ _ _ value => [value]
  | .sequence statements => statements
  | .call _ arguments => arguments

/-- The first expression stands somewhere in the second one, or is all of it. -/
inductive Occurs : Expr → Expr → Prop
  | root {e : Expr} : Occurs e e
  | inside {part child e : Expr} (hchild : child ∈ e.children) (hpart : Occurs part child) :
      Occurs part e

/-- The expressions on a way from the root of the expression down to a leaf. -/
inductive IsPath : Expr → List Expr → Prop
  | leaf {e : Expr} (hleaf : e.children = []) : IsPath e [e]
  | down {e child : Expr} {path : List Expr} (hchild : child ∈ e.children)
      (hpath : IsPath child path) : IsPath e (e :: path)

/-- What holds of everything in a tree holds of the tree and of everything in its children. -/
theorem forall_occurs_iff {property : Expr → Prop} {e : Expr} :
    (∀ part, Occurs part e → property part) ↔
      property e ∧ ∀ child ∈ e.children, ∀ part, Occurs part child → property part := by
  constructor
  · intro hall
    exact ⟨hall e .root, fun child hchild part hpart => hall part (.inside hchild hpart)⟩
  · rintro ⟨hroot, hbelow⟩ part hpart
    cases hpart with
    | root => exact hroot
    | inside hchild hpart => exact hbelow _ hchild part hpart

/-! ### The parts as a list -/

mutual

/-- The parts of the expression, each before the parts below it. -/
def parts : Expr → List Expr
  | e@(.constant _) | e@(.reference _ _) => [e]
  | e@(.unary _ operand) => e :: operand.parts
  | e@(.binary _ left right) => e :: (left.parts ++ right.parts)
  | e@(.conditional condition whenTrue whenFalse) =>
    e :: (condition.parts ++ whenTrue.parts ++ whenFalse.parts)
  | e@(.assign _ _ _ value) => e :: value.parts
  | e@(.sequence statements) => e :: allParts statements
  | e@(.call _ arguments) => e :: allParts arguments

def allParts : List Expr → List Expr
  | [] => []
  | e :: es => e.parts ++ allParts es

end

theorem allParts_eq_flatMap (es : List Expr) : allParts es = es.flatMap parts := by
  induction es with
  | nil => rfl
  | cons e es ih => rw [allParts, ih, List.flatMap_cons]

theorem parts_eq (e : Expr) : e.parts = e :: e.children.flatMap parts := by
  cases e <;> simp [parts, children, allParts_eq_flatMap]

/-- What is listed as a part of a tree occurs in it. -/
theorem occurs_of_mem_parts {part e : Expr} (hpart : part ∈ e.parts) : Occurs part e := by
  have hstep {e : Expr} (hbelow : ∀ child ∈ e.children, part ∈ child.parts → Occurs part child)
      (hpart : part ∈ e.parts) : Occurs part e := by
    rw [parts_eq, List.mem_cons, List.mem_flatMap] at hpart
    obtain rfl | ⟨child, hchild, hpart⟩ := hpart
    · exact .root
    · exact .inside hchild (hbelow child hchild hpart)
  induction e with
  | constant | reference => exact hstep nofun hpart
  | unary _ _ ih | assign _ _ _ _ ih => exact hstep (by simpa [children] using ih) hpart
  | binary _ _ _ ihLeft ihRight =>
      exact hstep (by simpa [children] using ⟨ihLeft, ihRight⟩) hpart
  | conditional _ _ _ ihCondition ihTrue ihFalse =>
      exact hstep (by simpa [children] using ⟨ihCondition, ihTrue, ihFalse⟩) hpart
  | sequence _ ih | call _ _ ih => exact hstep ih hpart

/-- The list of parts is the list of what occurs in a tree. -/
theorem mem_parts_iff {part e : Expr} : part ∈ e.parts ↔ Occurs part e := by
  refine ⟨occurs_of_mem_parts, fun hoccurs => ?_⟩
  induction hoccurs with
  | root =>
      rw [parts_eq]
      exact List.mem_cons_self
  | inside hchild _ ih =>
      rw [parts_eq]
      exact List.mem_cons_of_mem _ (List.mem_flatMap.2 ⟨_, hchild, ih⟩)

/-- What can be decided of one expression can be decided of all parts of an expression. -/
instance (property : Expr → Prop) [DecidablePred property] (e : Expr) :
    Decidable (∀ part, Occurs part e → property part) :=
  decidable_of_iff (∀ part ∈ e.parts, property part) (by simp only [mem_parts_iff])

end MotionScript.Expr
