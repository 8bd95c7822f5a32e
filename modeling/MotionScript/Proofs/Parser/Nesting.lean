import MotionScript.Proofs.Expr.Height
import MotionScript.Proofs.Parser.Balance
import MotionScript.Proofs.Parser.Levels
/-!
# How far the limit of nesting bounds the trees

A chain gives back the levels of nesting that its steps have entered, so the chains of the seven
levels of operators can be put into one another, each as long as there are levels left.  A level of
nesting is thus worth seven nodes for each level behind it, and not a fixed number of them.
-/

namespace MotionScript

namespace Parser

variable {budget : Nat} {setup : Setup} {state state' : State}

/-- The nodes on the longest way down in a statement that has some levels of nesting left. -/
def deepest : Nat → Nat
  | 0 => 0
  | levels + 1 => deepest levels + 7 * levels + 1

/-- The edges on the longest way down in chains of some tiers of operators. -/
def deepestChain (tiers levels : Nat) : Nat :=
  deepest levels + tiers * levels

theorem deepest_succ (levels : Nat) : deepest (levels + 1) = deepestChain 7 levels + 1 := rfl

theorem deepest_sub {limit depth : Nat} (hdepth : depth < limit) :
    deepest (limit - depth) = deepestChain 7 (limit - (depth + 1)) + 1 := by
  have hlevels : limit - depth = limit - (depth + 1) + 1 := by omega
  rw [hlevels, deepest_succ]

theorem deepestChain_zero (levels : Nat) : deepestChain 0 levels = deepest levels := by
  rw [deepestChain, Nat.zero_mul, Nat.add_zero]

theorem deepestChain_succ (tiers levels : Nat) :
    deepestChain (tiers + 1) levels = deepestChain tiers levels + levels := by
  rw [deepestChain, deepestChain, Nat.succ_mul, Nat.add_assoc]

theorem deepest_mono {levels more : Nat} (hmore : levels ≤ more) :
    deepest levels ≤ deepest more := by
  induction hmore with
  | refl => exact Nat.le_refl _
  | @step more _ ih =>
      rw [deepest]
      omega

theorem deepestChain_mono {tiers levels more : Nat} (hmore : levels ≤ more) :
    deepestChain tiers levels ≤ deepestChain tiers more :=
  Nat.add_le_add (deepest_mono hmore) (Nat.mul_le_mul_left tiers hmore)

/-- The bound in closed form: seven for each pair of levels, and one for each level. -/
theorem deepest_eq (levels : Nat) :
    deepest levels = 7 * (levels * (levels - 1) / 2) + levels := by
  induction levels with
  | zero => rfl
  | succ levels ih =>
      have hpairs : (levels + 1) * levels / 2 = levels * (levels - 1) / 2 + levels := by
        have hproduct : (levels + 1) * levels = levels * (levels - 1) + 2 * levels := by
          cases levels with
          | zero => rfl
          | succ levels => grind
        rw [hproduct, Nat.add_mul_div_left _ _ Nat.two_pos]
      rw [deepest, ih, Nat.add_sub_cancel, hpairs]
      omega

/-! ### One chain -/

/-- What a chain adds to the height of its operands is at most the levels it may enter. -/
theorem chained_height_le {first : Parser Expr} {step : Expr → Parser (Option Expr)}
    {bound : Nat} {e : Expr}
    (hfirst : ∀ {first' between}, first setup state = .done first' between →
      between.depth = state.depth ∧ first'.height ≤ bound)
    (hstep : ∀ {left next : Expr} {before behind : State}, state.depth ≤ before.depth →
      step left setup before = .done (some next) behind →
      before.depth < setup.limit ∧ behind.depth = before.depth + 1 ∧
        next.height ≤ max left.height bound + 1)
    (hrun : chained first step setup state = .done e state') :
    e.height ≤ bound + (setup.limit - state.depth) := by
  obtain ⟨start, between, last, hstart, hloop, _⟩ := chained_cases hrun
  obtain ⟨hdepth, hheight⟩ := hfirst hstart
  -- Each step adds one edge and enters one level that is not given back before the end.
  obtain ⟨stop, hstop, _⟩ := iterate_invariant
    (motive := fun left reached => state.depth ≤ reached.depth ∧
      reached.depth - state.depth ≤ setup.limit - state.depth ∧
      left.height ≤ bound + (reached.depth - state.depth))
    (fun {left next before behind} hbefore hnext => by
      obtain ⟨hlimit, hentered, hhigher⟩ := hstep hbefore.1 hnext
      omega)
    (by omega) hloop
  omega

/-! ### Lists of statements -/

/-- A list is as low as its statements, where each step reads one more of them and gives back the
levels that it has entered. -/
theorem heightAbove_repeatStep_le {step : List Expr → Parser (Option (List Expr))} {first : Expr}
    {es : List Expr} (hfirst : first.height + 1 ≤ deepest (setup.limit - state.depth))
    (hstep : ∀ {es next : List Expr} {before behind : State},
      step es setup before = .done (some next) behind → behind.depth = before.depth ∧
        ∃ e, next = es ++ [e] ∧ e.height + 1 ≤ deepest (setup.limit - before.depth))
    (hloop : repeatStep step [first] setup state = .done es state') :
    Expr.heightAbove es ≤ deepest (setup.limit - state.depth) := by
  obtain ⟨_, ⟨_, hheight⟩, _⟩ := iterate_invariant
    (motive := fun es reached => reached.depth = state.depth ∧
      Expr.heightAbove es ≤ deepest (setup.limit - state.depth))
    (fun {es next before behind} hbefore hnext => by
      obtain ⟨hdepth, e, rfl, he⟩ := hstep hnext
      rw [hbefore.1] at hdepth he
      rw [Expr.heightAbove_le_iff, List.forall_mem_append, List.forall_mem_singleton]
      exact ⟨hdepth, Expr.heightAbove_le_iff.1 hbefore.2, he⟩)
    ⟨rfl, Expr.heightAbove_le_iff.2 (List.forall_mem_singleton.2 hfirst)⟩ hloop
  exact hheight

/-! ### The functions of the parser -/

/-- What is called with the budget gives expressions no higher than the levels of nesting that are
left allow. -/
structure Shallow (budget : Nat) : Prop where
  statement : ∀ {setup state state' e}, statement budget setup state = .done e state' →
    e.height + 1 ≤ deepest (setup.limit - state.depth)
  assignment : ∀ {setup state state' e}, assignment budget setup state = .done e state' →
    e.height ≤ deepestChain 7 (setup.limit - state.depth)
  ternary : ∀ {setup state state' e}, ternary budget setup state = .done e state' →
    e.height ≤ deepestChain 7 (setup.limit - state.depth)
  chain : ∀ {level setup state state' e}, chain level budget setup state = .done e state' →
    e.height ≤ deepestChain (8 - level.tightness) (setup.limit - state.depth)
  fold : ∀ {level setup state state' e}, fold level budget setup state = .done e state' →
    e.height ≤ deepestChain (8 - level.tightness) (setup.limit - state.depth)
  unary : ∀ {setup state state' e}, unary budget setup state = .done e state' →
    e.height ≤ deepest (setup.limit - state.depth)
  primary : ∀ {setup state state' e}, primary budget setup state = .done e state' →
    e.height ≤ deepest (setup.limit - state.depth)
  named : ∀ {start path setup state state' e},
    named start path budget setup state = .done e state' →
    e.height ≤ deepest (setup.limit - state.depth)
  arguments : ∀ {setup state state' es}, arguments budget setup state = .done es state' →
    Expr.heightAbove es ≤ deepest (setup.limit - state.depth)

namespace Shallow

theorem zero : Shallow 0 where
  statement := nofun
  assignment := nofun
  ternary := nofun
  chain := nofun
  fold := nofun
  unary := nofun
  primary := nofun
  named := nofun
  arguments := nofun

variable (shallow : Shallow budget)
include shallow

/-- An operand is as high as the tighter levels allow. -/
theorem operand {level : Level} {e : Expr}
    (hrun : operand level budget setup state = .done e state') :
    e.height ≤ deepestChain (7 - level.tightness) (setup.limit - state.depth) := by
  cases htighter : level.tighter with
  | some tighter =>
      rw [operand_eq_chain htighter] at hrun
      have htiers : 8 - tighter.tightness = 7 - level.tightness := by
        rw [Level.tightness_tighter htighter]
        omega
      exact htiers ▸ shallow.chain hrun
  | none =>
      cases level <;> cases htighter
      rw [Level.tightness, deepestChain_zero]
      exact shallow.unary hrun

/-- An operand of a chain is no higher than one at the place where the chain has started. -/
theorem operand_within {level : Level} {e : Expr} {before : State}
    (hbefore : state.depth ≤ before.depth)
    (hrun : Parser.operand level budget setup before = .done e state') :
    e.height ≤ deepestChain (7 - level.tightness) (setup.limit - state.depth) :=
  Nat.le_trans (shallow.operand hrun) (deepestChain_mono (Nat.sub_le_sub_left hbefore _))

/-- Each operator of a chain spends a level and adds one to the height. -/
theorem fold_succ {level : Level} {e : Expr}
    (hrun : Parser.fold level (budget + 1) setup state = .done e state') :
    e.height ≤ deepestChain (8 - level.tightness) (setup.limit - state.depth) := by
  have htiers : 8 - level.tightness = 7 - level.tightness + 1 := by
    have hbound := level.tightness_le
    omega
  rw [htiers, deepestChain_succ]
  rw [Parser.fold_succ] at hrun
  refine chained_height_le (fun hfirst => ⟨((keepsBalance budget).operand level).done hfirst,
    shallow.operand hfirst⟩) (fun {left next before behind} hbefore hstep => ?_) hrun
  obtain ⟨_, hnone, _⟩ | ⟨operator, right, _, hlimit, hright, hnext⟩ := operatorStep_cases hstep
  · cases hnone
  · cases hnext
    have hheight := shallow.operand_within (Nat.le_succ_of_le hbefore) hright
    refine ⟨hlimit, ((keepsBalance budget).operand level).done hright, ?_⟩
    rw [Expr.height]
    omega

/-- A branch of a conditional is no higher than one at the place where the chain has started. -/
theorem branch_within {e : Expr} {before : State} (hbefore : state.depth ≤ before.depth)
    (hrun : Parser.chain .or budget setup before = .done e state') :
    e.height ≤ deepestChain 6 (setup.limit - state.depth) :=
  Nat.le_trans (shallow.chain hrun) (deepestChain_mono (Nat.sub_le_sub_left hbefore _))

/-- Each question mark of a conditional chain spends a level and adds one to the height. -/
theorem ternary_succ {e : Expr}
    (hrun : Parser.ternary (budget + 1) setup state = .done e state') :
    e.height ≤ deepestChain 7 (setup.limit - state.depth) := by
  rw [deepestChain_succ]
  rw [Parser.ternary_succ] at hrun
  refine chained_height_le (fun hfirst => ⟨((keepsBalance budget).chain .or).done hfirst,
    shallow.branch_within (Nat.le_refl _) hfirst⟩)
    (fun {condition next before behind} hbefore hstep => ?_) hrun
  obtain ⟨_, hnone, _⟩ | ⟨whenTrue, between, whenFalse, _, hlimit, hwhenTrue, _, hwhenFalse,
    hnext⟩ := conditionalStep_cases hstep
  · cases hnone
  · cases hnext
    have hbranch := (keepsBalance budget).chain .or
    have hbetween : between.depth = before.depth + 1 := hbranch.done hwhenTrue
    have hbehind : behind.depth = between.advanced.depth := hbranch.done hwhenFalse
    have hheightTrue := shallow.branch_within (Nat.le_succ_of_le hbefore) hwhenTrue
    have hlater : state.depth ≤ between.advanced.depth := by
      rw [depth_advanced]
      omega
    have hheightFalse := shallow.branch_within hlater hwhenFalse
    refine ⟨hlimit, hbehind.trans hbetween, ?_⟩
    rw [Expr.height]
    omega

theorem statement_succ {e : Expr}
    (hrun : Parser.statement (budget + 1) setup state = .done e state') :
    e.height + 1 ≤ deepest (setup.limit - state.depth) := by
  obtain ⟨hdepth, _, _, hassignment⟩ := statement_cases hrun
  rw [deepest_sub hdepth]
  exact Nat.succ_le_succ (shallow.assignment hassignment)

theorem assignment_succ {e : Expr}
    (hrun : Parser.assignment (budget + 1) setup state = .done e state') :
    e.height ≤ deepestChain 7 (setup.limit - state.depth) := by
  obtain ⟨_, hternary⟩ | ⟨_, _, _, value, _, _, _, _, _, hvalue, he⟩ := assignment_cases hrun
  · exact shallow.ternary hternary
  · have hheight := shallow.statement hvalue
    rw [depth_advanced, depth_advanced] at hheight
    rw [he, Expr.height, deepestChain]
    omega

/-- Each sign spends a level and adds one to the height. -/
theorem unary_succ {e : Expr} (hrun : Parser.unary (budget + 1) setup state = .done e state') :
    e.height ≤ deepest (setup.limit - state.depth) := by
  obtain ⟨_, operator, _, _, hsigned⟩ | ⟨_, hunary⟩ | hprimary := unary_cases hrun
  · obtain ⟨hdepth, operand, _, hoperand, he, _⟩ := signed_cases hsigned
    have hheight : operand.height ≤ deepest (setup.limit - (state.depth + 1)) :=
      shallow.unary hoperand
    rw [he, Expr.height, deepest_sub hdepth, deepestChain]
    omega
  · have hheight := shallow.unary hunary
    exact hheight
  · exact shallow.primary hprimary

theorem primary_succ {e : Expr} (hrun : Parser.primary (budget + 1) setup state = .done e state') :
    e.height ≤ deepest (setup.limit - state.depth) := by
  obtain ⟨_, _, he, _⟩ | ⟨_, _, hstatement, _⟩ | ⟨_, _, _, hnamed⟩ := primary_cases hrun
  · exact he ▸ Nat.zero_le _
  · have hheight := shallow.statement hstatement
    exact Nat.le_of_succ_le hheight
  · have hheight := shallow.named hnamed
    exact hheight

theorem named_succ {start : Nat} {path : String} {e : Expr}
    (hrun : Parser.named start path (budget + 1) setup state = .done e state') :
    e.height ≤ deepest (setup.limit - state.depth) := by
  obtain ⟨_, _, hcall⟩ | ⟨_, _, _, he, _⟩ := named_cases hrun
  · obtain ⟨_, _, _, _, he, ⟨_, harguments⟩ | ⟨_, hnone, _⟩⟩ := call_cases hcall
    · have hheight := shallow.arguments harguments
      exact he ▸ hheight
    · rw [he, hnone]
      exact Nat.zero_le _
  · exact he ▸ Nat.zero_le _

theorem argumentStep {es next : List Expr}
    (hrun : Parser.argumentStep (Parser.statement budget) es setup state =
      .done (some next) state') :
    ∃ e, next = es ++ [e] ∧ e.height + 1 ≤ deepest (setup.limit - state.depth) := by
  obtain ⟨_, hnone, _⟩ | ⟨e, _, hstatement, hnext⟩ := argumentStep_cases hrun
  · cases hnone
  · have hheight := shallow.statement hstatement
    exact ⟨e, Option.some.inj hnext, hheight⟩

theorem statementStep {es next : List Expr}
    (hrun : Parser.statementStep (Parser.statement budget) es setup state =
      .done (some next) state') :
    ∃ e, next = es ++ [e] ∧ e.height + 1 ≤ deepest (setup.limit - state.depth) := by
  obtain ⟨_, hnone, _⟩ | ⟨_, _, hnone, _⟩ | ⟨e, _, hstatement, hnext⟩ := statementStep_cases hrun
  · cases hnone
  · cases hnone
  · have hheight := shallow.statement hstatement
    exact ⟨e, Option.some.inj hnext, hheight⟩

/-- Each argument is a statement one level down, which makes up for the node of the call. -/
theorem arguments_succ {es : List Expr}
    (hrun : Parser.arguments (budget + 1) setup state = .done es state') :
    Expr.heightAbove es ≤ deepest (setup.limit - state.depth) := by
  obtain ⟨_, rfl, _⟩ | ⟨first, between, last, hfirst, hloop, _, rfl⟩ := arguments_cases hrun
  · exact Nat.zero_le _
  · have hstatement := (keepsBalance budget).statement
    have hbetween := hstatement.done hfirst
    have hheight := shallow.statement hfirst
    rw [← hbetween] at hheight ⊢
    exact heightAbove_repeatStep_le hheight
      (fun hstep => ⟨(hstatement.argumentStep _).done hstep, shallow.argumentStep hstep⟩) hloop

theorem succ : Shallow (budget + 1) where
  statement := shallow.statement_succ
  assignment := shallow.assignment_succ
  ternary := shallow.ternary_succ
  chain := shallow.fold
  fold := shallow.fold_succ
  unary := shallow.unary_succ
  primary := shallow.primary_succ
  named := shallow.named_succ
  arguments := shallow.arguments_succ

end Shallow

theorem shallow (budget : Nat) : Shallow budget := by
  induction budget with
  | zero => exact Shallow.zero
  | succ budget ih => exact ih.succ

/-! ### Programs -/

/-- No text leads to a tree that is higher than the bound for its limit. -/
theorem program_height_le {e : Expr} (hrun : program budget setup state = .done e state') :
    e.height ≤ deepest (setup.limit - state.depth) := by
  obtain ⟨first, between, es, last, hfirst, hloop, _, _, he⟩ := program_cases hrun
  have hstatement := (keepsBalance budget).statement
  have hbetween := hstatement.done hfirst
  have hheight := (shallow budget).statement hfirst
  rw [← hbetween] at hheight ⊢
  have hes := heightAbove_repeatStep_le hheight (fun hstep =>
    ⟨(hstatement.statementStep _).done hstep, (shallow budget).statementStep hstep⟩) hloop
  obtain rfl | ⟨_, rfl⟩ := he
  · exact Nat.le_of_succ_le (Expr.heightAbove_le_iff.1 hes e (List.mem_singleton_self e))
  · exact hes

end Parser

open MotionScript.Parser

theorem Expr.height_le_of_parseWithin {limit : Nat} {source : String} {e : Expr}
    (hparse : Expr.parseWithin limit source = .ok e) : e.height ≤ deepest limit := by
  obtain ⟨_, _, _, _, hrun⟩ := exists_run_of_parseWithin hparse
  exact program_height_le hrun

/-- No way down in a tree that a limit accepts has more nodes than seven for each pair of its
levels, one for each level, and one for a sequence. -/
theorem Expr.length_path_le_of_parseWithin {limit : Nat} {source : String} {e : Expr}
    {path : List Expr} (hparse : Expr.parseWithin limit source = .ok e) (hpath : e.IsPath path) :
    path.length ≤ 7 * (limit * (limit - 1) / 2) + limit + 1 := by
  rw [← deepest_eq]
  exact Nat.le_trans hpath.length_le (Nat.succ_le_succ (Expr.height_le_of_parseWithin hparse))

/-- The height of the tree that a source text is accepted as. -/
def Expr.heightWithin (limit : Nat) (source : String) : Option Nat :=
  (Expr.parseWithin limit source).toOption.map Expr.height

theorem Expr.exists_path_of_heightWithin {limit height : Nat} {source : String}
    (hheight : Expr.heightWithin limit source = some height) :
    ∃ e path, Expr.parseWithin limit source = .ok e ∧ e.IsPath path ∧ path.length = height + 1 := by
  obtain ⟨e, hparse, rfl⟩ := Option.map_eq_some_iff.1 hheight
  obtain ⟨path, hpath, hlength⟩ := e.exists_path_of_height
  exact ⟨e, path, eq_ok_of_toOption hparse, hpath, hlength⟩

/-- Two levels allow a step of each tier of operators above a call, and a sequence above them
all. -/
theorem Expr.length_path_le_of_parseWithin_tiers :
    ∃ e path, Expr.parseWithin 2 "math.abs(1)*1+1<1==1&&1||1?1:1; 1" = .ok e ∧ e.IsPath path ∧
      path.length = 10 ∧ path.length ≤ 7 * (2 * (2 - 1) / 2) + 2 + 1 := by
  obtain ⟨e, path, hparse, hpath, hlength⟩ := Expr.exists_path_of_heightWithin
    (show Expr.heightWithin 2 "math.abs(1)*1+1<1==1&&1||1?1:1; 1" = some 9 by decide +kernel)
  exact ⟨e, path, hparse, hpath, hlength, Expr.length_path_le_of_parseWithin hparse hpath⟩

/-- At a limit of three levels, steps of each tier above a call, twice inside one another, make a
way down of 25 nodes, more than eight for each level. -/
theorem Expr.exists_parseWithin_higher :
    ∃ source e path, Expr.parseWithin 3 source = .ok e ∧ e.IsPath path ∧ 8 * 3 < path.length := by
  let source := "math.abs(math.abs(1)*1+1<1==1&&1||1?1:1)*1*1+1+1<1<1==1==1&&1&&1||1||1?1:1?1:1; 1"
  have hheight : Expr.heightWithin 3 source = some 24 := by decide +kernel
  obtain ⟨e, path, hparse, hpath, hlength⟩ := Expr.exists_path_of_heightWithin hheight
  exact ⟨source, e, path, hparse, hpath, by omega⟩

end MotionScript
