import MotionScript.Proofs.Expr.RoundTrip
import MotionScript.Proofs.Parser.Monotone
/-!
# How far the limit of nesting bounds the calls

Between two levels of nesting lie up to nineteen calls and one more for each plus before an operand,
because a plus is passed without entering a level: seventeen calls from a statement to the primary
that opens a parenthesis, and two more to the arguments of a function.  So the limit bounds the
calls of an input as long as no run of pluses in it is long, and a run of pluses alone takes as many
calls as it is long.
-/

namespace MotionScript.Parser

variable {budget : Nat} {setup : Setup} {state later : State} {input : List Token.Kind}

/-- The pluses at the head of an input. -/
def plusRun : List Token.Kind → Nat
  | .symbol .plus :: input => plusRun input + 1
  | _ => 0

def longestPlusRun : List Token.Kind → Nat
  | [] => 0
  | kind :: input => max (plusRun (kind :: input)) (longestPlusRun input)

theorem plusRun_eq_succ (hnext : nextKind input = .symbol .plus) :
    plusRun input = plusRun input.tail + 1 := by
  rw [eq_cons_of_nextKind hnext symbol_ne_end, plusRun, List.tail_cons]

theorem nextKind_of_plusRun (hplus : 0 < plusRun input) : nextKind input = .symbol .plus := by
  unfold plusRun at hplus
  split at hplus
  · rfl
  · cases hplus

theorem plusRun_le_longestPlusRun : plusRun input ≤ longestPlusRun input := by
  cases input with
  | nil => exact Nat.le_refl _
  | cons kind input => exact Nat.le_max_left _ _

/-- A suffix has no longer run of plus signs. -/
theorem longestPlusRun_le_of_suffix {rest : List Token.Kind} (hsuffix : rest <:+ input) :
    longestPlusRun rest ≤ longestPlusRun input := by
  induction input with
  | nil => exact List.suffix_nil.1 hsuffix ▸ Nat.le_refl _
  | cons kind input ih =>
      obtain rfl | hbehind := List.suffix_cons_iff.1 hsuffix
      · exact Nat.le_refl _
      · exact Nat.le_trans (ih hbehind) (Nat.le_max_right _ _)

/-! ### Calls on a budget that the limit gives -/

/-- The calls that the levels of nesting still to be entered take. -/
def levelCost (setup : Setup) (state : State) : Nat :=
  (longestPlusRun state.kinds + 19) * (setup.limit - state.depth)

theorem levelCost_le (setup : Setup) (hlater : Later state later) :
    levelCost setup later ≤ levelCost setup state :=
  Nat.mul_le_mul (Nat.add_le_add_right (longestPlusRun_le_of_suffix hlater.suffix) 19)
    (Nat.sub_le_sub_left hlater.depth setup.limit)

theorem levelCost_advanced_le (setup : Setup) (state : State) :
    levelCost setup state.advanced ≤ levelCost setup state :=
  levelCost_le setup .advanced

/-- Entering a level pays for the calls of the level and for its longest run of plus signs. -/
theorem levelCost_entered (hdepth : state.depth < setup.limit) :
    levelCost setup state =
      levelCost setup state.entered + (longestPlusRun state.kinds + 19) := by
  have hlevels : setup.limit - state.depth = (setup.limit - state.entered.depth) + 1 := by
    rw [depth_entered]
    omega
  rw [levelCost, hlevels, Nat.mul_succ]
  rfl

/-- The ranks of the calls by the levels of nesting that are left. -/
def levelRanking (setup : Setup) : Ranking setup where
  statement state := levelCost setup state
  assignment state := levelCost setup state + longestPlusRun state.kinds + 18
  ternary state := levelCost setup state + longestPlusRun state.kinds + 17
  chain level state := levelCost setup state + longestPlusRun state.kinds + level.rank + 4
  fold level state := levelCost setup state + longestPlusRun state.kinds + level.rank + 3
  unary state := levelCost setup state + plusRun state.kinds + 4
  primary state := levelCost setup state + 3
  named state := levelCost setup state + 2
  arguments state := levelCost setup state + 1
  statement_assignment hdepth := by
    rw [levelCost_entered hdepth, kinds_entered]
    omega
  assignment_ternary := by omega
  assignment_value {state path} _ := by
    have hvalue : levelCost setup state.advanced.advanced ≤ levelCost setup state :=
      levelCost_le setup (.trans .advanced .advanced)
    omega
  ternary_chain hlater := by
    have hcost := levelCost_le setup hlater
    have hrun := longestPlusRun_le_of_suffix hlater.suffix
    simp only [Level.rank]
    omega
  chain_fold := by omega
  fold_tighter htighter hlater := by
    have hcost := levelCost_le setup hlater
    have hrun := longestPlusRun_le_of_suffix hlater.suffix
    rw [Level.rank_tighter htighter]
    omega
  fold_unary {state later} hlater := by
    have hcost := levelCost_le setup hlater
    have hrun := longestPlusRun_le_of_suffix hlater.suffix
    have hhead : plusRun later.kinds ≤ longestPlusRun later.kinds := plusRun_le_longestPlusRun
    simp only [Level.rank]
    omega
  unary_sign {state symbol} hdepth _ := by
    have hadvanced := levelCost_advanced_le setup state
    have hentered : levelCost setup state.advanced =
        levelCost setup state.advanced.entered + (longestPlusRun state.advanced.kinds + 19) :=
      levelCost_entered hdepth
    have hhead : plusRun state.advanced.kinds ≤ longestPlusRun state.advanced.kinds :=
      plusRun_le_longestPlusRun
    rw [kinds_entered]
    omega
  unary_plus {state} hnext := by
    have hadvanced := levelCost_advanced_le setup state
    rw [plusRun_eq_succ hnext, kinds_advanced]
    omega
  unary_primary := by omega
  primary_statement {state} _ := by
    have hadvanced := levelCost_advanced_le setup state
    omega
  primary_named {state path} _ := by
    have hadvanced := levelCost_advanced_le setup state
    omega
  named_arguments {state} _ := by
    have hadvanced := levelCost_advanced_le setup state
    omega
  arguments_statement hlater := Nat.lt_succ_of_le (levelCost_le setup hlater)

/-- A program needs no more calls than its levels of nesting take. -/
theorem program_ne_exhausted_of_levelCost (hbudget : levelCost setup state < budget) :
    program budget setup state ≠ .exhausted := by
  apply (levelRanking setup).program_ne_exhausted
  intro later hlater
  exact Nat.lt_of_le_of_lt (levelCost_le setup hlater) hbudget

/-- If no run of pluses is longer than 13, then 32 nested calls for each level of nesting are never
used up, and a larger budget gives the same answer. -/
theorem program_bounded_by_limit {tokens : List Token}
    (hplus : longestPlusRun (tokens.map Token.kind) ≤ 13)
    (hbudget : 32 * (setup.limit + 1) ≤ budget) :
    program (32 * (setup.limit + 1)) setup ⟨tokens, 0⟩ ≠ .exhausted ∧
      program budget setup ⟨tokens, 0⟩ = program (32 * (setup.limit + 1)) setup ⟨tokens, 0⟩ := by
  have hcost : levelCost setup ⟨tokens, 0⟩ < 32 * (setup.limit + 1) := by
    have hcalls : longestPlusRun (tokens.map Token.kind) + 19 ≤ 32 := by omega
    calc levelCost setup ⟨tokens, 0⟩
        = (longestPlusRun (tokens.map Token.kind) + 19) * setup.limit := rfl
      _ ≤ 32 * setup.limit := Nat.mul_le_mul_right _ hcalls
      _ < 32 * (setup.limit + 1) := by omega
  have hanswers : program (32 * (setup.limit + 1)) setup ⟨tokens, 0⟩ ≠ .exhausted :=
    program_ne_exhausted_of_levelCost hcost
  exact ⟨hanswers, program_agreesWith hbudget setup ⟨tokens, 0⟩ hanswers⟩

/-- Signs and parentheses that enter three levels, with a run of two pluses between them. -/
theorem program_bounded_by_limit_signs :
    ∃ tokens, tokenize "-(++2)" = .ok tokens ∧
      longestPlusRun (tokens.map Token.kind) ≤ 13 ∧ 32 * (3 + 1) ≤ 500 ∧
      program (32 * (3 + 1)) ⟨3, 6⟩ ⟨tokens, 0⟩ ≠ .exhausted ∧
      program 500 ⟨3, 6⟩ ⟨tokens, 0⟩ = program (32 * (3 + 1)) ⟨3, 6⟩ ⟨tokens, 0⟩ := by
  have htokens : tokenize "-(++2)" = .ok
      [⟨.symbol .minus, 0, 1⟩, ⟨.symbol .leftParen, 1, 2⟩, ⟨.symbol .plus, 2, 3⟩,
        ⟨.symbol .plus, 3, 4⟩, ⟨.number 2, 4, 5⟩, ⟨.symbol .rightParen, 5, 6⟩,
        ⟨.endOfInput, 6, 6⟩] :=
    eq_ok_of_toOption (by decide +kernel)
  have hbudget : 32 * (3 + 1) ≤ 500 := by decide
  refine ⟨_, htokens, by decide, hbudget, ?_⟩
  exact @program_bounded_by_limit 500 ⟨3, 6⟩ _ (by decide) hbudget

/-! ### Pluses use up every budget -/

/-- Each plus sign takes one call, so a run of them uses up any smaller budget. -/
theorem unary_exhausted_of_plusRun (hplus : budget ≤ plusRun state.kinds) :
    unary budget setup state = .exhausted := by
  induction budget generalizing state with
  | zero => rfl
  | succ budget ih =>
      have hnext := nextKind_of_plusRun (Nat.lt_of_lt_of_le (Nat.succ_pos budget) hplus)
      rw [plusRun_eq_succ hnext] at hplus
      have hadvanced : budget ≤ plusRun state.advanced.kinds := by
        rw [kinds_advanced]
        omega
      rw [unary, peek_bind, hnext]
      exact ih hadvanced

/-- A chain and its fold call the chain of the next level, and the tightest ones the unary. -/
theorem chain_fold_exhausted_of_plusRun {level : Level} (hplus : budget ≤ plusRun state.kinds) :
    chain level budget setup state = .exhausted ∧ fold level budget setup state = .exhausted := by
  induction budget generalizing level with
  | zero => exact ⟨rfl, rfl⟩
  | succ budget ih =>
      have hless : budget ≤ plusRun state.kinds := Nat.le_of_succ_le hplus
      have hoperand : operand level budget setup state = .exhausted := by
        cases level with
        | factor => exact unary_exhausted_of_plusRun hless
        | _ => exact (ih hless).1
      exact ⟨(ih hless).2, bind_of_exhausted _ hoperand⟩

theorem ternary_exhausted_of_plusRun (hplus : budget ≤ plusRun state.kinds) :
    ternary budget setup state = .exhausted := by
  cases budget with
  | zero => rfl
  | succ budget =>
      exact bind_of_exhausted _ (chain_fold_exhausted_of_plusRun (Nat.le_of_succ_le hplus)).1

/-- Two pluses are no assignment, so a run of them uses up the budget of a statement too. -/
theorem assignment_exhausted_of_plusRun (hpluses : 2 ≤ plusRun state.kinds)
    (hplus : budget ≤ plusRun state.kinds) : assignment budget setup state = .exhausted := by
  cases budget with
  | zero => rfl
  | succ budget =>
      have hfirst := nextKind_of_plusRun (Nat.lt_of_lt_of_le Nat.two_pos hpluses)
      have hbehind : 0 < plusRun state.kinds.tail := by
        rw [plusRun_eq_succ hfirst] at hpluses
        omega
      rw [assignment, peekSecond_bind, nextKind_of_plusRun hbehind]
      exact ternary_exhausted_of_plusRun (Nat.le_of_succ_le hplus)

/-- Two or more pluses use up a budget that allows no more calls than there are pluses, whatever the
limit is. -/
theorem program_exhausted_of_plusRun (hdepth : state.depth < setup.limit)
    (hpluses : 2 ≤ plusRun state.kinds) (hplus : budget ≤ plusRun state.kinds) :
    program budget setup state = .exhausted := by
  rw [program]
  apply bind_of_exhausted
  cases budget with
  | zero => rfl
  | succ budget =>
      have hassignment : assignment budget setup state.entered = .exhausted :=
        assignment_exhausted_of_plusRun hpluses (Nat.le_of_succ_le hplus)
      have henter : enter setup state = .done () state.entered :=
        enter_eq_done_iff.2 ⟨hdepth, rfl⟩
      rw [statement, bind_of_done _ henter, leaving_apply, hassignment]

/-- Pluses before an operand leave no trace and enter no level. -/
theorem ReadsOperand.pluses {kinds : List Token.Kind} {levels : Nat} {e : Expr}
    (hreads : ReadsOperand setup kinds levels e) (count : Nat) :
    ReadsOperand setup (List.replicate count (.symbol .plus) ++ kinds) levels e := by
  induction count with
  | zero => exact hreads
  | succ count ih =>
      exact ⟨fun rest => (ih.spans rest).spans.cons rfl,
        fun depth rest hdepth hfollow => .unary_plus (ih.reads depth rest hdepth hfollow)⟩

/-- Plus signs in front of a number are accepted at every positive limit. -/
theorem ofTokens_pluses {limit count : Nat} {tokens : List Token} {value : Float32}
    (hlimit : 1 ≤ limit)
    (hkinds : tokens.map Token.kind =
      List.replicate count (.symbol .plus) ++ [.number value, .endOfInput]) :
    Expr.ofTokens limit tokens = .ok (.constant value) := by
  apply Expr.ofTokens_of_reads
  intro lastOffset budget
  have hoperand : ReadsOperand ⟨limit, lastOffset⟩
      (List.replicate count (.symbol .plus) ++ [.number value]) 0 (.constant value) :=
    ReadsOperand.number.pluses count
  have hfirst := hoperand.statement.reads 0 [.endOfInput] hlimit rfl budget
  rw [hkinds]
  rw [List.append_assoc] at hfirst
  exact Grammar.Ending.plain.reads_program hfirst .refl (Or.inl rfl)

/-- Sixty-four pluses before a number take more than the 64 calls that a limit of one level would
allow, and they are accepted at that limit. -/
theorem program_not_bounded_by_limit :
    ∃ tokens, tokenize (String.ofList (List.replicate 64 '+' ++ ['1'])) = .ok tokens ∧
      program (32 * (1 + 1)) ⟨1, 65⟩ ⟨tokens, 0⟩ = .exhausted ∧
      Expr.ofTokens 1 tokens = .ok (.constant 1) := by
  let tokens : List Token := (List.range 64).map (fun start => ⟨.symbol .plus, start, start + 1⟩) ++
    [⟨.number 1, 64, 65⟩, ⟨.endOfInput, 65, 65⟩]
  have htokens : tokenize (String.ofList (List.replicate 64 '+' ++ ['1'])) = .ok tokens :=
    eq_ok_of_toOption (by decide +kernel)
  have hkinds : tokens.map Token.kind =
      List.replicate 64 (.symbol .plus) ++ [.number 1, .endOfInput] := rfl
  refine ⟨tokens, htokens, ?_, ofTokens_pluses (Nat.le_refl 1) hkinds⟩
  exact program_exhausted_of_plusRun (by decide) (by decide) (by decide)

end MotionScript.Parser
