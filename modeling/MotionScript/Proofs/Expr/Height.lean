import MotionScript.Proofs.Expr.Subtree
import MotionScript.Proofs.Expr.WellFormed
/-!
# Heights and ways down

The height of an expression is the length of its longest way from the root down to a leaf.
-/

namespace MotionScript.Expr

theorem height_eq_heightAbove (e : Expr) : e.height = heightAbove e.children := by
  cases e with
  | sequence statements => rfl
  | call function arguments => rfl
  | _ => simp only [height, children, heightAbove] <;> omega

theorem height_lt_of_mem_children {e child : Expr} (hchild : child ∈ e.children) :
    child.height < e.height := by
  rw [height_eq_heightAbove e]
  exact heightAbove_le_iff.1 (Nat.le_refl _) child hchild

/-- Among the expressions, one is as high as a node above them makes it seem. -/
theorem exists_mem_heightAbove {es : List Expr} (hes : es ≠ []) :
    ∃ e ∈ es, heightAbove es = e.height + 1 := by
  induction es with
  | nil => exact absurd rfl hes
  | cons e es ih =>
      by_cases hless : heightAbove es ≤ e.height + 1
      · exact ⟨e, List.mem_cons_self, Nat.max_eq_left hless⟩
      · have hhigher : e.height + 1 ≤ heightAbove es := Nat.le_of_not_le hless
        have hbehind : es ≠ [] := by
          rintro rfl
          exact hless (Nat.zero_le _)
        obtain ⟨highest, hmem, hheight⟩ := ih hbehind
        exact ⟨highest, List.mem_cons_of_mem e hmem, (Nat.max_eq_right hhigher).trans hheight⟩

/-- No path has more nodes than the height and one. -/
theorem IsPath.length_le {e : Expr} {path : List Expr} (hpath : e.IsPath path) :
    path.length ≤ e.height + 1 := by
  induction hpath with
  | leaf hleaf => exact Nat.succ_le_succ (Nat.zero_le _)
  | @down e child path hchild _ ih =>
      have hheight := height_lt_of_mem_children hchild
      rw [List.length_cons]
      omega

/-- A tree of height `n` has a path of `n + 1` nodes, so the height counts a longest path. -/
theorem exists_path_of_height (e : Expr) :
    ∃ path, e.IsPath path ∧ path.length = e.height + 1 := by
  induction hheight : e.height generalizing e with
  | zero =>
      have hleaf : e.children = [] := by
        apply Classical.byContradiction
        intro hchildren
        obtain ⟨child, _, habove⟩ := exists_mem_heightAbove hchildren
        rw [← height_eq_heightAbove, hheight] at habove
        cases habove
      exact ⟨[e], .leaf hleaf, rfl⟩
  | succ height ih =>
      have hchildren : e.children ≠ [] := by
        intro hleaf
        rw [height_eq_heightAbove, hleaf] at hheight
        cases hheight
      obtain ⟨child, hchild, habove⟩ := exists_mem_heightAbove hchildren
      rw [← height_eq_heightAbove, hheight] at habove
      obtain ⟨path, hpath, hlength⟩ := ih child (Nat.succ.inj habove).symm
      exact ⟨e :: path, .down hchild hpath, congrArg (· + 1) hlength⟩

/-! ### Heights of simplified expressions -/

theorem height_foldTo_le (value : Float32) (e : Expr) : (foldTo value e).height ≤ e.height := by
  rw [foldTo]
  split
  · exact Nat.zero_le _
  · exact Nat.le_refl _

theorem heightAbove_simplifyAll_le {es : List Expr}
    (hes : ∀ e ∈ es, e.simplify.height ≤ e.height) :
    heightAbove (simplifyAll es) ≤ heightAbove es := by
  rw [simplifyAll_eq_map, heightAbove_le_iff, List.forall_mem_map]
  intro e hmem
  exact Nat.le_trans (Nat.succ_le_succ (hes e hmem))
    (heightAbove_le_iff.1 (Nat.le_refl _) e hmem)

theorem height_foldSequence_le (statements : List Expr) :
    (foldSequence statements).height ≤ heightAbove statements := by
  unfold foldSequence
  split
  next e => exact Nat.le_of_succ_le (heightAbove_le_iff.1 (Nat.le_refl _) e List.mem_cons_self)
  next => exact Nat.le_refl _

/-- Folding a call does not make it higher than it was. -/
theorem height_foldCall_le (function : MathFunction) (arguments : List Expr) :
    (foldCall function arguments).height ≤ heightAbove arguments := by
  rw [foldCall]
  split
  · exact Nat.le_refl _
  · split
    · exact height_foldTo_le _ _
    · exact Nat.le_refl _

/-- Simplification makes no way down longer. -/
theorem height_simplify_le (e : Expr) : e.simplify.height ≤ e.height := by
  induction e with
  | constant value => exact Nat.le_refl _
  | reference scope name => exact Nat.le_refl _
  | unary operator operand ih =>
      have hunary : (unary operator operand.simplify).height ≤ (unary operator operand).height :=
        Nat.succ_le_succ ih
      rw [simplify, foldUnary]
      split
      · exact Nat.le_trans (height_foldTo_le _ _) hunary
      · exact hunary
  | binary operator left right ihLeft ihRight =>
      have hbinary : (binary operator left.simplify right.simplify).height ≤
          (binary operator left right).height := by
        rw [height, height]
        omega
      rw [simplify, foldBinary]
      split
      · exact Nat.le_trans (height_foldTo_le _ _) hbinary
      · exact hbinary
  | conditional condition whenTrue whenFalse ihCondition ihTrue ihFalse =>
      rw [simplify, foldConditional]
      split
      · split <;> (rw [height]; omega)
      · rw [height, height]
        omega
  | assign operator scope name value ih => exact Nat.succ_le_succ ih
  | sequence statements ih =>
      exact Nat.le_trans (height_foldSequence_le _) (heightAbove_simplifyAll_le ih)
  | call function arguments ih =>
      exact Nat.le_trans (height_foldCall_le _ _) (heightAbove_simplifyAll_le ih)

end MotionScript.Expr
