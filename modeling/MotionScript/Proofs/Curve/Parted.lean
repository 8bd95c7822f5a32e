import Mathlib
import MotionScript.Curve.Segment
/-!
# Curves that are parted at an input

An input parts the nodes that a curve runs through: up to the last node in front of the first one
behind the input, and from there on.  The active index is the position of that last node.  This
holds over every linear order of times.
-/

namespace MotionScript.Curve

variable {ε α : Type} [LinearOrder α]

/-- An input that is not before the first node has reached some node, and the next one is behind
it. -/
structure PartedAt (nodes : List (Node ε α)) (x : α) (earlier : List (Node ε α)) (node : Node ε α)
    (later : List (Node ε α)) : Prop where
  nodes_eq : nodes = earlier ++ node :: later
  reached : ∀ other ∈ earlier ++ [node], other.time ≤ x
  behind : ∀ other ∈ later.head?, x < other.time

theorem PartedAt.cons {nodes earlier later : List (Node ε α)} {first node : Node ε α} {x : α}
    (hparted : PartedAt nodes x earlier node later) (hreached : first.time ≤ x) :
    PartedAt (first :: nodes) x (first :: earlier) node later where
  nodes_eq := congrArg (first :: ·) hparted.nodes_eq
  reached := List.forall_mem_cons.2 ⟨hreached, hparted.reached⟩
  behind := hparted.behind

/-- From the first node on, the nodes of a curve can be parted at any input. -/
theorem exists_partedAt {nodes : List (Node ε α)} {x : α} {first : Node ε α}
    (hfirst : nodes.head? = some first) (hreached : first.time ≤ x) :
    ∃ earlier node later, PartedAt nodes x earlier node later := by
  induction nodes generalizing first with
  | nil => cases hfirst
  | cons head nodes ih =>
      cases hfirst
      cases hnext : nodes.head? with
      | none => exact ⟨[], head, nodes, rfl, by simpa using hreached, by simp [hnext]⟩
      | some next =>
          by_cases hbehind : x < next.time
          · exact ⟨[], head, nodes, rfl, by simpa using hreached, by simpa [hnext] using hbehind⟩
          · obtain ⟨earlier, node, later, hparted⟩ := ih hnext (not_lt.1 hbehind)
            exact ⟨head :: earlier, node, later, hparted.cons hreached⟩

/-- The times of the nodes do not decrease. -/
def Ordered (nodes : List (Node ε α)) : Prop :=
  nodes.Pairwise fun left right => left.time ≤ right.time

namespace Ordered

variable {x : α} {earlier later : List (Node ε α)} {node next : Node ε α}

theorem tail (hordered : Ordered (earlier ++ later)) : Ordered later :=
  (List.pairwise_append.1 hordered).2.1

theorem le_head (hordered : Ordered (node :: later)) (hnext : next ∈ later.head?) :
    node.time ≤ next.time :=
  List.rel_of_pairwise_cons hordered (List.mem_of_mem_head? hnext)

theorem le_headD (hordered : Ordered (node :: later)) :
    node.time ≤ (later.headD node).time := by
  cases later with
  | nil => exact le_rfl
  | cons next later => exact hordered.le_head rfl

/-- Among ordered nodes, the last one reached parts them. -/
theorem partedAt (hordered : Ordered (earlier ++ node :: later)) (hreached : node.time ≤ x)
    (hbehind : ∀ next ∈ later.head?, x < next.time) :
    PartedAt (earlier ++ node :: later) x earlier node later where
  nodes_eq := rfl
  behind := hbehind
  reached := by
    have hearlier : ∀ other ∈ earlier, other.time ≤ node.time := fun other hother =>
      (List.pairwise_append.1 hordered).2.2 other hother node (List.mem_cons_self ..)
    refine List.forall_mem_append.2 ⟨fun other hother => ?_, List.forall_mem_singleton.2 hreached⟩
    exact (hearlier other hother).trans hreached

end Ordered

/-- The active index is the position of the last node reached. -/
theorem PartedAt.activeIndex_eq {curve : Curve ε α} {x : α} {earlier later : List (Node ε α)}
    {node : Node ε α} (hparted : PartedAt curve.visibleNodes x earlier node later) :
    curve.activeIndex x = curve.shape.margin + earlier.length := by
  have hreached : ∀ other ∈ earlier ++ [node], (!decide (x < other.time)) = true := by
    simpa using hparted.reached
  have hbehind : later.takeWhile (fun other => !decide (x < other.time)) = [] := by
    cases later with
    | nil => rfl
    | cons next later =>
        have hnext : x < next.time := hparted.behind next rfl
        simp [hnext]
  have hsplit : curve.visibleNodes = (earlier ++ [node]) ++ later := by
    rw [hparted.nodes_eq, List.append_assoc]
    rfl
  rw [activeIndex, hsplit, List.takeWhile_append_of_pos hreached, hbehind]
  simp

omit [LinearOrder α] in
/-- A curve without a margin runs through all of its nodes. -/
theorem visibleNodes_eq_nodes {curve : Curve ε α} (hmargin : curve.shape.margin = 0) :
    curve.visibleNodes = curve.nodes := by
  rw [visibleNodes, hmargin, Nat.mul_zero, Nat.sub_zero, List.take_length, List.drop_zero]

theorem activeIndex_of_partedAt {curve : Curve ε α} {x : α} {earlier later : List (Node ε α)}
    {node : Node ε α} (hmargin : curve.shape.margin = 0)
    (hparted : PartedAt curve.nodes x earlier node later) :
    curve.activeIndex x = earlier.length := by
  rw [← visibleNodes_eq_nodes hmargin] at hparted
  rw [hparted.activeIndex_eq, hmargin, Nat.zero_add]

/-- Before all nodes the active index is that of the first one. -/
theorem activeIndex_of_before {curve : Curve ε α} {x : α}
    (hbefore : ∀ first ∈ curve.visibleNodes.head?, x < first.time) :
    curve.activeIndex x = curve.shape.margin := by
  rw [activeIndex]
  cases hnodes : curve.visibleNodes with
  | nil => rfl
  | cons first nodes =>
      have hfirst : x < first.time := hbefore first (by rw [hnodes]; rfl)
      simp [hfirst]

theorem activeIndex_eq_zero {curve : Curve ε α} {x : α} (hmargin : curve.shape.margin = 0)
    (hbefore : ∀ first ∈ curve.nodes.head?, x < first.time) : curve.activeIndex x = 0 := by
  rw [← visibleNodes_eq_nodes hmargin] at hbefore
  rw [activeIndex_of_before hbefore, hmargin]

/-- Among ordered nodes, the last one reached is found by its position. -/
theorem activeIndex_of_ordered {curve : Curve ε α} {x : α} {i : ℕ}
    (hordered : Ordered curve.visibleNodes) (hi : i < curve.visibleNodes.length)
    (hreached : curve.visibleNodes[i].time ≤ x)
    (hbehind : ∀ next ∈ curve.visibleNodes[i + 1]?, x < next.time) :
    curve.activeIndex x = curve.shape.margin + i := by
  have hsplit : curve.visibleNodes =
      curve.visibleNodes.take i ++ curve.visibleNodes[i] :: curve.visibleNodes.drop (i + 1) := by
    rw [← List.drop_eq_getElem_cons hi, List.take_append_drop]
  rw [← List.head?_drop] at hbehind
  have hparted := (hsplit ▸ hordered).partedAt hreached hbehind
  rw [← hsplit] at hparted
  rw [hparted.activeIndex_eq, List.length_take_of_le hi.le]

end MotionScript.Curve
