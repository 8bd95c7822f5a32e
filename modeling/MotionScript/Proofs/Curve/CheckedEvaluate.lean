import MotionScript.Context
import MotionScript.Curve.Evaluate
import MotionScript.Proofs.Curve.ActiveIndex
import MotionScript.Proofs.Curve.Positions
/-!
# Evaluation with checks

The same evaluation by positions, which fails where a node is read at a position that the curve does
not have, and where a number is divided by zero.  It never fails, whatever the surroundings answer,
so evaluation by segments leaves out nothing that could go wrong.
-/

namespace MotionScript

namespace Curve

variable {m : Type → Type} [Monad m]
variable {ε : Type}

def checkedNode (nodes : List (Node ε Float32)) (i : Nat) : OptionT m (Node ε Float32) :=
  OptionT.mk (pure nodes[i]?)

/-- A quotient by a number that has to be other than zero. -/
def checkedQuotient (dividend divisor : Float32) : OptionT m Float32 :=
  if divisor == ((0 : Nat) : Float32) then failure else return dividend / divisor

def checkedProgress (start stop : Node ε Float32) (x : Float32) : OptionT m Float32 := do
  let span := stop.time - start.time
  if span == ((0 : Nat) : Float32) then
    return unitClamp ((0 : Nat) : Float32)
  else
    return unitClamp (← checkedQuotient (x - start.time) span)

/-- The value on the line from a node to the next one, or the value of the only node. -/
def checkedLine (resolve : ε → m Float32) (nodes : List (Node ε Float32)) (i : Nat) (x : Float32) :
    OptionT m Float32 := do
  if nodes.length = 1 then
    let node ← checkedNode nodes 0
    resolve node.value
  else
    let start ← checkedNode nodes i
    let stop := nodes[i + 1]?.getD start
    let a ← resolve start.value
    let b ← resolve stop.value
    return lerp a b (← checkedProgress start stop x)

/-- The value of the cubic over the first four nodes, if there are as many. -/
def checkedControl (resolve : ε → m Float32) (nodes : List (Node ε Float32)) (x : Float32) :
    OptionT m Float32 := do
  if nodes.length < 4 then
    return x
  else
    let a ← resolve (← checkedNode nodes 0).value
    let b ← resolve (← checkedNode nodes 1).value
    let c ← resolve (← checkedNode nodes 2).value
    let d ← resolve (← checkedNode nodes 3).value
    return bezier a b c d x

/-- The value on the cubic from a node to the next one, or that after the last node. -/
def checkedChain (resolve : ε → m Float32) (nodes : List (Node ε Float32)) (i : Nat) (x : Float32) :
    OptionT m Float32 := do
  let start ← checkedNode nodes i
  match nodes[i + 1]? with
  | none => resolve start.rightValue
  | some stop =>
    let third := (stop.time - start.time) / ((3 : Nat) : Float32)
    let a ← resolve start.rightValue
    let startSlope ← resolve start.rightSlope
    let d ← resolve stop.leftValue
    let stopSlope ← resolve stop.leftSlope
    return bezier a (a + third * startSlope) (d - third * stopSlope) d
      (← checkedProgress start stop x)

/-- The value on the smooth line from the node at `i` to the next one. -/
def checkedSpline (resolve : ε → m Float32) (nodes : List (Node ε Float32)) (i : Nat)
    (x : Float32) : OptionT m Float32 := do
  let a ← resolve (← checkedNode nodes (i - 1)).value
  let b ← resolve (← checkedNode nodes i).value
  let c ← resolve (← checkedNode nodes (i + 1)).value
  let d ← resolve (← checkedNode nodes (i + 2)).value
  let progress ← checkedProgress (← checkedNode nodes i) (← checkedNode nodes (i + 1)) x
  return catmullRom a b c d progress

def checkedValue (resolve : ε → m Float32) (curve : Curve ε Float32) (x : Float32) :
    OptionT m Float32 :=
  let i := curve.activeIndex x
  match curve.shape with
  | .linear => checkedLine resolve curve.nodes i x
  | .bezier => checkedControl resolve curve.nodes x
  | .bezierChain => checkedChain resolve curve.nodes i x
  | .catmullRom =>
    if curve.nodes.length < 4 ∨ i = 0 ∨ curve.nodes.length ≤ i + 2 then return x
    else checkedSpline resolve curve.nodes i x

def checkedEvaluate (resolve : ε → m Float32) (curve : Curve ε Float32) : OptionT m Float32 := do
  if curve.nodes.isEmpty then
    return ((0 : Nat) : Float32)
  else
    let range ← resolve curve.range
    if range == ((0 : Nat) : Float32) then
      return ((1 : Nat) : Float32)
    else
      let input ← resolve curve.input
      curve.checkedValue resolve (← checkedQuotient input range)

/-! ### No check fails -/

theorem checkedNode_eq {nodes : List (Node ε Float32)} {i : Nat} (node : Node ε Float32)
    (hnode : nodes[i]? = some node) :
    (checkedNode nodes i : OptionT m (Node ε Float32)) = pure node := by
  rw [checkedNode, hnode]
  rfl

theorem checkedQuotient_eq {dividend divisor : Float32}
    (hdivisor : (divisor == ((0 : Nat) : Float32)) = false) :
    (checkedQuotient dividend divisor : OptionT m Float32) = pure (dividend / divisor) := by
  rw [checkedQuotient, hdivisor, if_neg Bool.false_ne_true]

/-- The checks on the way to a progress never fail, so it is the unchecked one. -/
theorem checkedProgress_eq [LawfulMonad m] (start stop : Node ε Float32) (x : Float32) :
    (checkedProgress start stop x : OptionT m Float32) = pure (Segment.between start stop x) := by
  rw [checkedProgress, Segment.between, progress]
  split
  · rfl
  next hspan => rw [checkedQuotient_eq (Bool.eq_false_iff.2 hspan), pure_bind]

/-! ### Evaluation by positions -/

variable [LawfulMonad m] {resolve : ε → m Float32} {nodes : List (Node ε Float32)} {i : Nat}

theorem checkedLine_eq (hnodes : nodes.length ≠ 1) (hi : i < nodes.length) (x : Float32) :
    checkedLine resolve nodes i x =
      liftM ((Segment.line nodes[i] (nodes[i + 1]?.getD nodes[i])).value resolve x) := by
  rw [checkedLine, if_neg hnodes, checkedNode_eq _ (List.getElem?_eq_getElem hi), pure_bind]
  simp only [checkedProgress_eq, pure_bind, Segment.value, liftM_bind, liftM_pure]

/-- No check fails on a control polygon of at least four nodes. -/
theorem checkedControl_eq {a b c d : Node ε Float32} {rest : List (Node ε Float32)}
    (hnodes : nodes = a :: b :: c :: d :: rest) (x : Float32) :
    checkedControl resolve nodes x =
      liftM ((Segment.control a.value b.value c.value d.value).value resolve x) := by
  have hlength : ¬ nodes.length < 4 := by
    simp only [hnodes, List.length_cons]
    omega
  rw [checkedControl, if_neg hlength]
  subst hnodes
  rw [checkedNode_eq a rfl, checkedNode_eq b rfl,
    checkedNode_eq c rfl, checkedNode_eq d rfl]
  simp only [pure_bind, Segment.value, liftM_bind, liftM_pure]

/-- No check fails on a chain if the active node exists. -/
theorem checkedChain_eq (hi : i < nodes.length) (x : Float32) :
    checkedChain resolve nodes i x =
      liftM (match nodes[i + 1]? with
        | none => resolve nodes[i].rightValue
        | some stop => (Segment.chain nodes[i] stop).value resolve x) := by
  rw [checkedChain, checkedNode_eq _ (List.getElem?_eq_getElem hi), pure_bind]
  cases nodes[i + 1]? with
  | none => rfl
  | some stop => simp only [checkedProgress_eq, pure_bind, Segment.value, liftM_bind, liftM_pure]

/-- No check fails on a spline if the active node has one neighbour before it and two behind it. -/
theorem checkedSpline_eq (hfirst : 1 ≤ i) (hlast : i + 2 < nodes.length) (x : Float32) :
    checkedSpline resolve nodes i x =
      liftM ((Segment.spline nodes[i - 1] nodes[i] nodes[i + 1] nodes[i + 2]).value resolve x) := by
  rw [checkedSpline, checkedNode_eq _ (List.getElem?_eq_getElem (by omega : i - 1 < nodes.length)),
    checkedNode_eq _ (List.getElem?_eq_getElem (by omega : i < nodes.length)),
    checkedNode_eq _ (List.getElem?_eq_getElem (by omega : i + 1 < nodes.length)),
    checkedNode_eq _ (List.getElem?_eq_getElem (by omega : i + 2 < nodes.length))]
  simp only [checkedProgress_eq, pure_bind, Segment.value, liftM_bind, liftM_pure]

/-- With too few nodes the smooth line is the input itself. -/
theorem segment_short {curve : Curve ε Float32} (hshape : curve.shape = .catmullRom)
    (hshort : curve.nodes.length < 4) (x : Float32) : curve.segment x = .input := by
  have hvisible : curve.visibleNodes = [] := by
    refine List.eq_nil_of_length_eq_zero ?_
    rw [visibleNodes, hshape, List.length_drop, List.length_take]
    change min (curve.nodes.length - 2) _ - 1 = 0
    omega
  have hindex : curve.activeIndex x = 1 := by
    rw [activeIndex, hvisible, hshape]
    rfl
  rw [segment, hshape, hindex]
  dsimp only
  split
  next hnodes =>
    have hlength := congrArg List.length hnodes
    simp only [List.length_drop, List.length_cons] at hlength
    omega
  next => rfl

/-- A smooth line with enough nodes runs from a node that has one before it to a node that has one
behind it. -/
theorem activeIndex_catmullRom {curve : Curve ε Float32} (hshape : curve.shape = .catmullRom)
    (hnodes : 4 ≤ curve.nodes.length) (x : Float32) :
    1 ≤ curve.activeIndex x ∧ curve.activeIndex x ≤ curve.nodes.length - 3 := by
  have hmargin : curve.shape.margin = 1 := by rw [hshape]; rfl
  have hindex := curve.activeIndex_lt (by omega) x
  omega

omit [LawfulMonad m] in
/-- A spline of enough nodes is evaluated at its active node. -/
theorem checkedValue_catmullRom {curve : Curve ε Float32} (hshape : curve.shape = .catmullRom)
    (hnodes : 4 ≤ curve.nodes.length) (x : Float32) :
    curve.checkedValue resolve x = checkedSpline resolve curve.nodes (curve.activeIndex x) x := by
  have hindex := activeIndex_catmullRom hshape hnodes x
  rw [checkedValue, hshape]
  dsimp only
  rw [if_neg (by omega)]

/-- No check fails in a curve that has a node: its value is that of the segment at the input. -/
theorem checkedValue_eq {curve : Curve ε Float32} (hnodes : curve.nodes ≠ []) (x : Float32) :
    curve.checkedValue resolve x = liftM ((curve.segment x).value resolve x) := by
  have hpos := List.length_pos_iff.2 hnodes
  have hindex (hmargin : curve.shape.margin = 0) : curve.activeIndex x < curve.nodes.length := by
    have hbounds := curve.activeIndex_lt (by omega) x
    omega
  cases hshape : curve.shape with
  | linear =>
      have hi := hindex (by rw [hshape]; rfl)
      rw [checkedValue, hshape]
      dsimp only
      by_cases hsingle : curve.nodes.length = 1
      · obtain ⟨node, hnode⟩ := List.length_eq_one_iff.1 hsingle
        rw [checkedLine, if_pos hsingle, segment, hshape, hnode, checkedNode_eq node rfl,
          pure_bind]
        rfl
      · rw [checkedLine_eq hsingle hi, segment_linear hshape hsingle hi]
  | bezier =>
      rw [checkedValue, segment, hshape]
      dsimp only
      by_cases hshort : curve.nodes.length < 4
      · rw [checkedControl, if_pos hshort]
        split
        next hfour =>
          rw [hfour] at hshort
          simp only [List.length_cons] at hshort
          omega
        next => rw [Segment.value, liftM_pure]
      · obtain ⟨a, b, c, d, rest, hfour⟩ : ∃ a b c d rest, curve.nodes = a :: b :: c :: d :: rest :=
          ⟨_, _, _, _, _, drop_eq_four (i := 0) (by omega)⟩
        rw [checkedControl_eq hfour, hfour]
  | bezierChain =>
      have hi := hindex (by rw [hshape]; rfl)
      rw [checkedValue, hshape]
      dsimp only
      rw [checkedChain_eq hi, segment_bezierChain hshape hi]
      cases curve.nodes[curve.activeIndex x + 1]? <;> rfl
  | catmullRom =>
      by_cases hshort : curve.nodes.length < 4
      · rw [checkedValue, hshape]
        dsimp only
        rw [if_pos (Or.inl hshort), segment_short hshape hshort, Segment.value, liftM_pure]
      · obtain ⟨hfirst, hlast⟩ := activeIndex_catmullRom hshape (Nat.not_lt.1 hshort) x
        rw [checkedValue_catmullRom hshape (Nat.not_lt.1 hshort),
          checkedSpline_eq hfirst (by omega), segment_catmullRom hshape hfirst (by omega)]

/-- Evaluation with checks is evaluation: it does and gives the same, and it gives a value. -/
theorem checkedEvaluate_eq (curve : Curve ε Float32) :
    curve.checkedEvaluate resolve = liftM (curve.evaluateWith resolve) := by
  rw [checkedEvaluate, evaluateWith]
  split
  · rw [liftM_pure]
  next hnodes =>
    rw [liftM_bind]
    refine bind_congr fun range => ?_
    split
    · rw [liftM_pure]
    next hrange =>
      rw [liftM_bind]
      refine bind_congr fun input => ?_
      rw [checkedQuotient_eq (Bool.eq_false_iff.2 hrange), pure_bind,
        checkedValue_eq (fun hnil => hnodes (List.isEmpty_iff.2 hnil))]

end Curve

/-- A curve is evaluated at the last visible node at or before the input, or at the first one if
there is none.  In no environment a node is read that the curve does not have, and nothing is
divided by a span of zero.  A smooth line with enough nodes is never evaluated at its ends. -/
theorem evaluate_selects_segment {shape : Curve.Shape} {nodes : List (Curve.Node Expr Float32)}
    {input range : Expr} {curve : Curve Expr Float32}
    (hcurve : Curve.ofNodes shape nodes input range = .ok curve) :
    (∀ x : Float32, x.isNaN = false →
      IsGreatest (curve.reached x) (curve.activeIndex x) ∨
        curve.reached x = ∅ ∧ curve.activeIndex x = curve.shape.margin) ∧
      ∀ {m : Type → Type} [Monad m] [LawfulMonad m] [Environment m],
        (curve.checkedEvaluate Expr.result : OptionT m Float32).run = some <$> curve.evaluate ∧
          (curve.shape = .catmullRom → 4 ≤ curve.nodes.length → ∀ x,
            (curve.checkedValue Expr.result x : OptionT m Float32) =
                Curve.checkedSpline Expr.result curve.nodes (curve.activeIndex x) x ∧
              1 ≤ curve.activeIndex x ∧ curve.activeIndex x ≤ curve.nodes.length - 3) := by
  refine ⟨fun x hx => Curve.activeIndex_eq (Curve.ascending_of_ofNodes hcurve) hx, ?_⟩
  intro m _ _ _
  refine ⟨?_, fun hshape hnodes x => ⟨?_, ?_⟩⟩
  · rw [Curve.checkedEvaluate_eq]
    change (OptionT.lift curve.evaluate).run = _
    rw [OptionT.run_lift, bind_pure_comp]
  · exact Curve.checkedValue_catmullRom hshape hnodes x
  · exact Curve.activeIndex_catmullRom hshape hnodes x

/-- Of the five nodes two stand at one time, and the input may lie beyond all of them. -/
theorem evaluate_selects_segment_five :
    let node (time value : Float32) : Curve.Node Expr Float32 := .plain .zero time (.constant value)
    let nodes := [node (-1) 1, node 0 2, node 1 4, node 1 5, node 2 3]
    let curve : Curve Expr Float32 := ⟨.catmullRom, nodes, .reference .query "anim_time", .one⟩
    Curve.ofNodes .catmullRom nodes curve.input curve.range = .ok curve ∧
      (∀ x : Float32, x.isNaN = false →
        IsGreatest (curve.reached x) (curve.activeIndex x) ∨
          curve.reached x = ∅ ∧ curve.activeIndex x = 1) ∧
        (curve.checkedEvaluate Expr.result : OptionT (StateM Session) Float32).run =
            some <$> curve.evaluate ∧
          ∀ x, 1 ≤ curve.activeIndex x ∧ curve.activeIndex x ≤ 2 := by
  intro node nodes curve
  have hcurve : Curve.ofNodes .catmullRom nodes curve.input curve.range = .ok curve :=
    Curve.ofNodes_of_pairwise .catmullRom nodes nofun (by decide) (by decide) _ _
  obtain ⟨hgreatest, hchecked⟩ := evaluate_selects_segment hcurve
  obtain ⟨hevaluate, hspline⟩ := hchecked (m := StateM Session)
  exact ⟨hcurve, hgreatest, hevaluate, fun x => (hspline rfl (by decide) x).2⟩

end MotionScript
