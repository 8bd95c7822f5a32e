import MotionScript.Proofs.Curve.Exact
/-!
# Straight curves

In exact arithmetic a linear curve with constant values runs straight from each of its nodes to the
next, and it is level before the first and from the last on.  Where nodes share a time the last of
them counts and the curve may jump; a curve whose nodes have different times is continuous.
-/

namespace MotionScript

open Segment (between)

variable {α : Type} [Field α] [LinearOrder α]

namespace Curve

variable {nodes earlier later : List (Node α α)} {start stop node : Node α α} {x : α}

/-! ### The segment in force -/

/-- The value at an input of the linear curve through nodes with constant values, over a range of
one. -/
def straight (nodes : List (Node α α)) (x : α) : α :=
  Id.run (evaluateWith pure ⟨.linear, nodes, x, 1⟩)

/-- The curve is on the way from the active node to the next one, or rests if there is none. -/
theorem straight_eq
    (hactive : (⟨.linear, earlier ++ node :: later, x, 1⟩ : Curve α α).activeIndex x =
      earlier.length) :
    straight (earlier ++ node :: later) x =
      lerp node.value (later.headD node).value (between node (later.headD node) x) := by
  have hnodes : earlier ++ node :: later ≠ [] := by simp
  have hdrop : (earlier ++ node :: later).drop earlier.length = node :: later := List.drop_left
  rw [straight, run_evaluateWith hnodes one_ne_zero, div_one]
  simp only [segment, hactive]
  split
  next hsingle =>
    obtain ⟨rfl, hlast⟩ := List.append_eq_singleton_iff.1 hsingle |>.resolve_right (by simp)
    cases hlast
    simp [Segment.value, lerp]
  next =>
    rw [hdrop]
    rfl

theorem straight_of_partedAt (hparted : PartedAt nodes x earlier node later) :
    straight nodes x =
      lerp node.value (later.headD node).value (between node (later.headD node) x) := by
  obtain rfl := hparted.nodes_eq
  exact straight_eq (activeIndex_of_partedAt rfl hparted)

/-- Up to the second node the curve is on the way from the first one. -/
theorem straight_of_lt (hbehind : ∀ stop ∈ later.head?, x < stop.time) :
    straight (start :: later) x =
      lerp start.value (later.headD start).value (between start (later.headD start) x) := by
  obtain hreached | hbefore := le_or_gt start.time x
  · have hparted : PartedAt (start :: later) x [] start later :=
      ⟨rfl, List.forall_mem_singleton.2 hreached, hbehind⟩
    exact straight_of_partedAt hparted
  · have hactive : (⟨.linear, [] ++ start :: later, x, 1⟩ : Curve α α).activeIndex x =
        ([] : List (Node α α)).length :=
      activeIndex_eq_zero rfl (by simpa using hbefore)
    exact straight_eq hactive

theorem straight_single (node : Node α α) : straight [node] = fun _ => node.value := by
  funext x
  rw [straight_of_lt (by simp)]
  simp [lerp]

/-- The first node matters up to the second one. -/
theorem straight_cons_cons (hway : start.time ≤ stop.time) (later : List (Node α α)) :
    straight (start :: stop :: later) = fun x =>
      if stop.time ≤ x then straight (stop :: later) x
      else lerp start.value stop.value (between start stop x) := by
  funext x
  split
  next hreached =>
    have hfirst : (stop :: later).head? = some stop := rfl
    obtain ⟨earlier, node, rest, hparted⟩ := exists_partedAt hfirst hreached
    rw [straight_of_partedAt hparted,
      straight_of_partedAt (hparted.cons (hway.trans hreached))]
  next hbehind => exact straight_of_lt (by simpa using hbehind)

/-! ### From one node to the next -/

def line (start stop : Node α α) (x : α) : α :=
  start.value + (stop.value - start.value) / (stop.time - start.time) * (x - start.time)

theorem line_stop (hway : start.time < stop.time) : line start stop stop.time = stop.value := by
  rw [line, div_mul_cancel₀ _ (sub_ne_zero.2 hway.ne'), add_sub_cancel]

variable [IsStrictOrderedRing α]

theorem lerp_between_of_le (hway : start.time ≤ stop.time) (hbefore : x ≤ start.time) :
    lerp start.value stop.value (between start stop x) = start.value := by
  rw [between_eq_zero hway hbefore, lerp_zero]

theorem lerp_between (hway : start.time < stop.time) (hreached : start.time ≤ x)
    (hbehind : x ≤ stop.time) :
    lerp start.value stop.value (between start stop x) = line start stop x := by
  rw [lerp, between_eq hway hreached hbehind, line]
  ring

/-- A value between two nodes lies between their values. -/
theorem lerp_between_mem (start stop : Node α α) (x : α) :
    lerp start.value stop.value (between start stop x) ∈ Set.uIcc start.value stop.value := by
  obtain ⟨hleast, hmost⟩ : between start stop x ∈ Set.Icc 0 1 := unitClamp_mem _
  rw [← segment_eq_uIcc]
  refine ⟨1 - between start stop x, between start stop x, sub_nonneg.2 hmost, hleast, by ring, ?_⟩
  rw [lerp, smul_eq_mul, smul_eq_mul]
  ring

theorem continuous_lerp_between [TopologicalSpace α] [OrderTopology α]
    (hway : start.time < stop.time) :
    Continuous fun x => lerp start.value stop.value (between start stop x) := by
  simp only [lerp, between, progress_eq hway, unitClamp_eq]
  fun_prop

/-! ### Through all nodes -/

namespace Ordered

theorem straight_before (hordered : Ordered (start :: later)) (hbefore : x < start.time) :
    straight (start :: later) x = start.value := by
  have hbehind : ∀ stop ∈ later.head?, x < stop.time := fun stop hstop =>
    hbefore.trans_le (hordered.le_head hstop)
  rw [straight_of_lt hbehind, lerp_between_of_le hordered.le_headD hbefore.le]

omit [IsStrictOrderedRing α] in
theorem straight_after (hordered : Ordered (earlier ++ [stop])) (hreached : stop.time ≤ x) :
    straight (earlier ++ [stop]) x = stop.value := by
  rw [straight_of_partedAt (hordered.partedAt hreached (by simp))]
  simp [lerp]

/-- The curve goes through its nodes, where no later node shares the time of one. -/
theorem straight_node (hordered : Ordered (earlier ++ node :: later))
    (hlast : ∀ other ∈ later, other.time ≠ node.time) :
    straight (earlier ++ node :: later) node.time = node.value := by
  have hbehind : ∀ next ∈ later.head?, node.time < next.time := fun next hnext =>
    (hordered.tail.le_head hnext).lt_of_ne' (hlast next (List.mem_of_mem_head? hnext))
  rw [straight_of_partedAt (hordered.partedAt le_rfl hbehind),
    lerp_between_of_le hordered.tail.le_headD le_rfl]

theorem straight_between (hordered : Ordered (earlier ++ start :: stop :: later))
    (hreached : start.time ≤ x) (hbehind : x < stop.time) :
    straight (earlier ++ start :: stop :: later) x = line start stop x ∧
      straight (earlier ++ start :: stop :: later) x ∈ Set.uIcc start.value stop.value := by
  rw [straight_of_partedAt (hordered.partedAt hreached (by simpa using hbehind))]
  exact ⟨lerp_between (hreached.trans_lt hbehind) hreached hbehind.le,
    lerp_between_mem start stop x⟩

/-- Without nodes that share a time, each line ends where the next one starts. -/
theorem continuous_straight [TopologicalSpace α] [OrderTopology α] (hordered : Ordered nodes)
    (hdistinct : (nodes.map Node.time).Nodup) : Continuous (straight nodes) := by
  induction nodes with
  | nil => exact continuous_const
  | cons start nodes ih =>
      cases nodes with
      | nil =>
          rw [straight_single]
          exact continuous_const
      | cons stop later =>
          have hrest : Ordered ([] ++ stop :: later) := List.Pairwise.of_cons hordered
          obtain ⟨hstart, hdistinct⟩ := List.nodup_cons.1 hdistinct
          have hway : start.time < stop.time :=
            (hordered.le_head rfl).lt_of_ne fun hsame => hstart (by simp [hsame])
          have hstop : straight ([] ++ stop :: later) stop.time = stop.value :=
            hrest.straight_node fun other hother hsame =>
              (List.nodup_cons.1 hdistinct).1 (hsame ▸ List.mem_map_of_mem hother)
          rw [straight_cons_cons hway.le]
          refine Continuous.if_le (ih hrest hdistinct) (continuous_lerp_between hway)
            continuous_const continuous_id ?_
          -- At the second node both parts have its value.
          rintro x rfl
          rw [lerp_between hway hway.le le_rfl, line_stop hway]
          exact hstop

end Ordered

/-! ### Interpolation -/

/-- The values of a function interpolate between nodes: they are level on the outside, they run
straight from each node to the next, and at the time of a node they are those of the last node
there. -/
structure Interpolates (nodes : List (Node α α)) (value : α → α) : Prop where
  before : ∀ first ∈ nodes.head?, ∀ x < first.time, value x = first.value
  after : ∀ last ∈ nodes.getLast?, ∀ x ≥ last.time, value x = last.value
  atTime : ∀ x, ∀ last ∈ (nodes.filter fun node => node.time = x).getLast?, value x = last.value
  bracket : ∀ first ∈ nodes.head?, ∀ last ∈ nodes.getLast?, ∀ x ∈ Set.Ico first.time last.time,
    ∃ earlier start stop later, nodes = earlier ++ start :: stop :: later ∧
      x ∈ Set.Ico start.time stop.time
  between : ∀ earlier start stop later, nodes = earlier ++ start :: stop :: later →
    ∀ x ∈ Set.Ico start.time stop.time,
      value x = line start stop x ∧ value x ∈ Set.uIcc start.value stop.value

omit [Field α] [IsStrictOrderedRing α] in
/-- The last node with a time has none with that time behind it. -/
theorem exists_of_getLast?_filter {last : Node α α}
    (hlast : (nodes.filter fun node => node.time = x).getLast? = some last) :
    ∃ earlier later, nodes = earlier ++ last :: later ∧ last.time = x ∧
      ∀ other ∈ later, other.time ≠ x := by
  obtain ⟨others, hothers⟩ := List.getLast?_eq_some_iff.1 hlast
  obtain ⟨front, back, rfl, -, hback⟩ := List.filter_eq_append_iff.1 hothers
  obtain ⟨middle, later, rfl, -, htime, hlater⟩ := List.filter_eq_cons_iff.1 hback
  refine ⟨front ++ middle, later, by rw [List.append_assoc], by simpa using htime, ?_⟩
  simpa using List.filter_eq_nil_iff.1 hlater

omit [Field α] [IsStrictOrderedRing α] in
/-- An input inside the range of a curve lies between two nodes that follow one another. -/
theorem exists_bracket {first last : Node α α} (hfirst : nodes.head? = some first)
    (hlast : nodes.getLast? = some last) (hx : x ∈ Set.Ico first.time last.time) :
    ∃ earlier start stop later, nodes = earlier ++ start :: stop :: later ∧
      x ∈ Set.Ico start.time stop.time := by
  obtain ⟨earlier, start, later, hparted⟩ := exists_partedAt hfirst hx.1
  have hreached : start.time ≤ x := hparted.reached start (by simp)
  obtain rfl := hparted.nodes_eq
  cases later with
  | nil =>
      rw [List.getLast?_concat, Option.some.injEq] at hlast
      exact absurd hx.2 (hlast ▸ hreached.not_gt)
  | cons stop later => exact ⟨earlier, start, stop, later, rfl, hreached, hparted.behind stop rfl⟩

/-- A curve of straight pieces through ordered nodes interpolates them: it goes through each node,
stays level outside them and is a straight line between neighbours. -/
theorem Ordered.interpolates (hordered : Ordered nodes) : Interpolates nodes (straight nodes) where
  before first hfirst x hbefore := by
    obtain ⟨later, rfl⟩ := List.head?_eq_some_iff.1 hfirst
    exact hordered.straight_before hbefore
  after last hlast x hreached := by
    obtain ⟨earlier, rfl⟩ := List.getLast?_eq_some_iff.1 hlast
    exact hordered.straight_after hreached
  atTime x last hlast := by
    obtain ⟨earlier, later, rfl, rfl, hlater⟩ := exists_of_getLast?_filter hlast
    exact hordered.straight_node hlater
  bracket first hfirst last hlast x hx := exists_bracket hfirst hlast hx
  between earlier start stop later hnodes x hx := by
    obtain rfl := hnodes
    exact hordered.straight_between hx.1 hx.2

/-- A linear curve over ordered nodes interpolates between them, and if no two of them share a time
it is continuous. -/
theorem linear_interpolates [TopologicalSpace α] [OrderTopology α] (hordered : Ordered nodes) :
    Interpolates nodes (straight nodes) ∧
      ((nodes.map Node.time).Nodup → Continuous (straight nodes)) :=
  ⟨hordered.interpolates, hordered.continuous_straight⟩

/-- A curve that jumps at one, and one that does not. -/
theorem linear_interpolates_jump :
    let rising : List (Node ℚ ℚ) := [.plain 0 0 0, .plain 0 1 10]
    let jumping : List (Node ℚ ℚ) := rising ++ [.plain 0 1 20, .plain 0 3 0]
    Ordered jumping ∧ straight jumping (-1) = 0 ∧ straight jumping 1 = 20 ∧
      straight jumping 2 = 10 ∧ straight jumping 4 = 0 ∧
      Ordered rising ∧ (rising.map Node.time).Nodup ∧ Continuous (straight rising) := by
  intro rising jumping
  have hordered : Ordered jumping := by unfold Ordered; decide
  have hordered' : Ordered rising := by unfold Ordered; decide
  have hdistinct : (rising.map Node.time).Nodup := by decide
  obtain ⟨hjumping, -⟩ := linear_interpolates hordered
  obtain ⟨-, hrising⟩ := linear_interpolates hordered'
  refine ⟨hordered, ?_, ?_, ?_, ?_, hordered', hdistinct, hrising hdistinct⟩
  · exact hjumping.before _ rfl (-1) (by decide)
  · exact hjumping.atTime 1 (.plain 0 1 20) rfl
  · have hfalling : (2 : ℚ) ∈ Set.Ico 1 3 := by norm_num
    rw [(hjumping.between rising (.plain 0 1 20) (.plain 0 3 0) [] rfl 2 hfalling).1]
    norm_num [line, Node.value, Node.plain]
  · exact hjumping.after _ rfl 4 (by decide)

end Curve

end MotionScript
