import MotionScript.Curve.Segment
import MotionScript.Expr.Basic
/-!
# What a curve asks for

A curve asks for the values of its range, its input and the nodes of the segment in force.  Which
expressions of a node can be asked for depends on the shape alone: the two sides of a node count
only where the curve may jump between them.
-/

namespace MotionScript

variable {ε α : Type}

/-- The expressions that shape a segment, in the order in which they are asked for. -/
def Segment.expressions : Segment ε α → List ε
  | .input => []
  | .level value => [value]
  | .line start stop => [start.value, stop.value]
  | .control a b c d => [a, b, c, d]
  | .chain start stop => [start.rightValue, start.rightSlope, stop.leftValue, stop.leftSlope]
  | .spline before start stop after => [before.value, start.value, stop.value, after.value]

namespace Curve

/-- The expressions of a node that a curve of the given shape can ask for. -/
def Node.expressions (shape : Shape) (node : Node ε α) : List ε :=
  match shape with
  | .bezierChain => [node.leftValue, node.rightValue, node.leftSlope, node.rightSlope]
  | _ => [node.value]

def expressions (curve : Curve ε α) : List ε :=
  curve.range :: curve.input :: curve.nodes.flatMap (Node.expressions curve.shape)

def reads (curve : Curve Expr α) : List Expr.Name :=
  curve.expressions.flatMap Expr.reads

variable {curve : Curve ε α}

theorem range_mem_expressions : curve.range ∈ curve.expressions :=
  List.mem_cons_self

theorem input_mem_expressions : curve.input ∈ curve.expressions :=
  List.mem_cons_of_mem _ List.mem_cons_self

theorem node_expressions_subset {node : Node ε α} (hnode : node ∈ curve.nodes) :
    node.expressions curve.shape ⊆ curve.expressions := by
  intro e he
  exact List.mem_cons_of_mem _ (List.mem_cons_of_mem _ (List.mem_flatMap.2 ⟨node, hnode, he⟩))

/-- Where the two sides of a node are one, its value is asked for. -/
theorem value_mem_expressions (hshape : curve.shape ≠ .bezierChain) {node : Node ε α}
    (hnode : node ∈ curve.nodes) : node.value ∈ curve.expressions := by
  apply node_expressions_subset hnode
  unfold Node.expressions
  split
  next hchain => exact absurd hchain hshape
  next => exact List.mem_cons_self

theorem values_subset_expressions (hshape : curve.shape ≠ .bezierChain)
    (nodes : List (Node ε α)) (hnodes : nodes ⊆ curve.nodes) :
    nodes.map Node.value ⊆ curve.expressions := by
  intro e he
  obtain ⟨node, hnode, rfl⟩ := List.mem_map.1 he
  exact value_mem_expressions hshape (hnodes hnode)

/-- Where the two sides of a node count, all four expressions of it are asked for. -/
theorem sides_mem_expressions (hshape : curve.shape = .bezierChain) {node : Node ε α}
    (hnode : node ∈ curve.nodes) :
    node.leftValue ∈ curve.expressions ∧ node.rightValue ∈ curve.expressions ∧
      node.leftSlope ∈ curve.expressions ∧ node.rightSlope ∈ curve.expressions := by
  have hsubset := node_expressions_subset hnode
  rw [hshape] at hsubset
  simpa only [Node.expressions, List.cons_subset, List.nil_subset, and_true] using hsubset

theorem subset_nodes_of_drop_eq {count : Nat} {nodes : List (Node ε α)}
    (hnodes : curve.nodes.drop count = nodes) : nodes ⊆ curve.nodes :=
  hnodes ▸ List.drop_subset count curve.nodes

/-- Whatever segment is in force, the curve lists what it asks for. -/
theorem expressions_segment_subset [LT α] [DecidableLT α] (curve : Curve ε α) (x : α) :
    (curve.segment x).expressions ⊆ curve.expressions := by
  unfold segment
  dsimp only
  cases hshape : curve.shape with
  | linear =>
      have hplain : curve.shape ≠ .bezierChain := by rw [hshape]; decide
      have hvalues := values_subset_expressions hplain
      dsimp only
      split
      next node hnodes => exact hvalues [node] (hnodes ▸ List.Subset.refl _)
      next =>
        split
        next start following hfound =>
          have hends : [start, following.headD start] ⊆ start :: following := by
            cases following <;> simp
          exact hvalues [start, following.headD start]
            (List.Subset.trans hends (subset_nodes_of_drop_eq hfound))
        next => exact List.nil_subset _
  | bezier =>
      have hplain : curve.shape ≠ .bezierChain := by rw [hshape]; decide
      dsimp only
      split
      next a b c d rest hnodes =>
        have hfour : [a, b, c, d] ⊆ curve.nodes :=
          hnodes ▸ List.subset_append_left [a, b, c, d] rest
        exact values_subset_expressions hplain [a, b, c, d] hfour
      next => exact List.nil_subset _
  | bezierChain =>
      dsimp only
      split
      next start stop rest hfound =>
        have hnodes := subset_nodes_of_drop_eq hfound
        have hstart := sides_mem_expressions hshape (hnodes List.mem_cons_self)
        have hstop := sides_mem_expressions hshape
          (hnodes (List.mem_cons_of_mem _ List.mem_cons_self))
        simp only [Segment.expressions, List.cons_subset, List.nil_subset, and_true]
        exact ⟨hstart.2.1, hstart.2.2.2, hstop.1, hstop.2.2.1⟩
      next node hfound =>
        have hnodes := subset_nodes_of_drop_eq hfound
        have hlast := sides_mem_expressions hshape (hnodes List.mem_cons_self)
        exact List.cons_subset.2 ⟨hlast.2.1, List.nil_subset _⟩
      next => exact List.nil_subset _
  | catmullRom =>
      have hplain : curve.shape ≠ .bezierChain := by rw [hshape]; decide
      dsimp only
      split
      next before start stop after rest hfound =>
        have hfour : [before, start, stop, after] ⊆ curve.nodes :=
          List.Subset.trans (List.subset_append_left _ rest) (subset_nodes_of_drop_eq hfound)
        exact values_subset_expressions hplain [before, start, stop, after] hfour
      next => exact List.nil_subset _

end Curve

end MotionScript
