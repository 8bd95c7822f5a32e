import MotionScript.Proofs.Parser.Balance
import MotionScript.Proofs.Parser.Soundness
/-!
# Ranked calls

A call of a function of the parser is given a budget of nested calls.  If there is a number for each
call that is lower for every call made in its course, then the number is a budget on which the call
answers.  What lowers the number is left open: it may be the tokens that are passed, or the levels
of nesting that are entered.
-/

namespace MotionScript.Parser

variable {α β : Type} {budget : Nat} {setup : Setup} {state state' : State}

/-! ### Building blocks that answer -/

theorem done_ne_exhausted {value : α} : Outcome.done value state ≠ .exhausted := by
  rintro ⟨⟩

theorem failed_ne_exhausted {error : ParseError} :
    (Outcome.failed error state : Outcome α) ≠ .exhausted := by
  rintro ⟨⟩

/-- A parse does not run out of its budget if neither of its parts does. -/
theorem bind_ne_exhausted {parser : Parser α} {next : α → Parser β}
    (hparser : parser setup state ≠ .exhausted)
    (hnext : ∀ value state', parser setup state = .done value state' →
      next value setup state' ≠ .exhausted) :
    (parser >>= next) setup state ≠ .exhausted := by
  rw [bind_apply]
  split
  next value state' hrun => exact hnext value state' hrun
  next => exact failed_ne_exhausted
  next hrun => exact absurd hrun hparser

theorem fail_ne_exhausted {expected : Expected} :
    (fail expected : Parser α) setup state ≠ .exhausted := by
  rw [fail_apply]
  exact failed_ne_exhausted

theorem enter_ne_exhausted : enter setup state ≠ .exhausted := by
  rw [enter_apply]
  split
  · exact fail_ne_exhausted
  · exact done_ne_exhausted

theorem enter_bind_ne_exhausted {next : Unit → Parser α}
    (hnext : next () setup state.entered ≠ .exhausted) :
    (enter >>= next) setup state ≠ .exhausted := by
  apply bind_ne_exhausted enter_ne_exhausted
  intro _ entered henter
  obtain ⟨_, rfl⟩ := enter_eq_done_iff.1 henter
  exact hnext

theorem expect_ne_exhausted {kind : Token.Kind} {expected : Expected} :
    expect kind expected setup state ≠ .exhausted := by
  rw [expect_apply]
  split
  · exact done_ne_exhausted
  · exact fail_ne_exhausted

theorem leaving_ne_exhausted {parser : Parser α} (hparser : parser setup state ≠ .exhausted) :
    leaving parser setup state ≠ .exhausted := by
  rw [leaving_apply]
  split
  · exact done_ne_exhausted
  · exact failed_ne_exhausted
  next hrun => exact absurd hrun hparser

theorem target_ne_exhausted : target setup state ≠ .exhausted := by
  rw [target, peek_bind]
  cases hnext : nextKind state.kinds with
  | path path =>
      cases hscoped : scopedName? path with
      | none =>
          simp only [hscoped]
          exact fail_ne_exhausted
      | some named =>
          simp only [hscoped]
          split
          · exact done_ne_exhausted
          · exact fail_ne_exhausted
  | _ => exact fail_ne_exhausted

theorem checkArity_ne_exhausted {offset : Nat} {function : MathFunction} {arguments : List Expr} :
    checkArity offset function arguments setup state ≠ .exhausted := by
  rw [checkArity]
  split
  · exact done_ne_exhausted
  · exact failed_ne_exhausted

theorem emptyParens_ne_exhausted : emptyParens setup state ≠ .exhausted := by
  rw [emptyParens, accept_bind]
  split
  · exact expect_ne_exhausted
  · exact done_ne_exhausted

theorem reference_ne_exhausted {start : Nat} {path : String} :
    reference start path setup state ≠ .exhausted := by
  rw [reference]
  cases scopedName? path with
  | none => exact failed_ne_exhausted
  | some found => exact bind_ne_exhausted emptyParens_ne_exhausted fun _ _ _ => done_ne_exhausted

/-! ### Places that a call comes to -/

/-- A place that a call may come to from another one: some tokens further on, and not outside of
the nesting there. -/
structure Later (state later : State) : Prop where
  suffix : later.kinds <:+ state.kinds
  depth : state.depth ≤ later.depth

namespace Later

variable {later last : State}

theorem refl : Later state state :=
  ⟨List.suffix_refl _, Nat.le_refl _⟩

theorem trans (hlater : Later state later) (hlast : Later later last) : Later state last :=
  ⟨hlast.suffix.trans hlater.suffix, Nat.le_trans hlater.depth hlast.depth⟩

theorem advanced : Later state state.advanced :=
  ⟨kinds_advanced state ▸ List.tail_suffix _, Nat.le_refl _⟩

theorem entered : Later state state.entered :=
  ⟨List.suffix_refl _, Nat.le_succ _⟩

end Later

/-- A parser that ends with a value does so at a later place. -/
structure Advances (setup : Setup) (parser : Parser α) : Prop where
  later : ∀ {state value state'}, parser setup state = .done value state' → Later state state'

namespace Advances

theorem statement (budget : Nat) : Advances setup (statement budget) where
  later hrun := ⟨((sound budget).statement hrun).spans.isSuffix,
    Nat.le_of_eq ((keepsBalance budget).statement.done hrun).symm⟩

theorem chain (level : Level) (budget : Nat) : Advances setup (chain level budget) where
  later hrun := ⟨((sound budget).chain hrun).spans.spans.isSuffix,
    Nat.le_of_eq (((keepsBalance budget).chain level).done hrun).symm⟩

theorem operand (level : Level) (budget : Nat) : Advances setup (operand level budget) where
  later hrun := ⟨((sound budget).operand hrun).spans.spans.isSuffix,
    Nat.le_of_eq (((keepsBalance budget).operand level).done hrun).symm⟩

theorem operatorStep {level : Level} {operand : Parser Expr} {left : Expr}
    (hoperand : Advances setup operand) : Advances setup (operatorStep level operand left) where
  later hstep := by
    obtain ⟨_, _, rfl⟩ | ⟨_, _, _, _, hright, _⟩ := operatorStep_cases hstep
    · exact .refl
    · exact Later.advanced.trans (Later.entered.trans (hoperand.later hright))

theorem conditionalStep {branch : Parser Expr} {condition : Expr}
    (hbranch : Advances setup branch) : Advances setup (conditionalStep branch condition) where
  later hstep := by
    obtain ⟨_, _, rfl⟩ | ⟨_, _, _, _, _, hwhenTrue, _, hwhenFalse, _⟩ :=
      conditionalStep_cases hstep
    · exact .refl
    · have hbetween := Later.advanced.trans (Later.entered.trans (hbranch.later hwhenTrue))
      exact hbetween.trans (Later.advanced.trans (hbranch.later hwhenFalse))

theorem argumentStep {statement : Parser Expr} {es : List Expr}
    (hstatement : Advances setup statement) : Advances setup (argumentStep statement es) where
  later hstep := by
    obtain ⟨_, _, rfl⟩ | ⟨_, _, hrun, _⟩ := argumentStep_cases hstep
    · exact .refl
    · exact Later.advanced.trans (hstatement.later hrun)

theorem statementStep {statement : Parser Expr} {es : List Expr}
    (hstatement : Advances setup statement) : Advances setup (statementStep statement es) where
  later hstep := by
    obtain ⟨_, _, rfl⟩ | ⟨_, _, _, rfl⟩ | ⟨_, _, hrun, _⟩ := statementStep_cases hstep
    · exact .refl
    · exact .advanced
    · exact Later.advanced.trans (hstatement.later hrun)

end Advances

/-! ### Loops that answer -/

/-- A loop answers if its steps do, wherever it may have come to. -/
theorem iterate_ne_exhausted {step : α → Parser (Option α)}
    (hanswers : ∀ {value : α} {later : State}, Later state later →
      step value setup later ≠ .exhausted)
    (hadvances : ∀ value, Advances setup (step value)) {rounds : Nat} {value : α} :
    iterate step rounds value setup state ≠ .exhausted := by
  induction rounds generalizing value state with
  | zero => exact done_ne_exhausted
  | succ rounds ih =>
      apply bind_ne_exhausted (hanswers .refl)
      intro next between hstep
      cases next with
      | none => exact done_ne_exhausted
      | some next =>
          have hlater := (hadvances value).later hstep
          exact ih fun hbetween => hanswers (hlater.trans hbetween)

theorem repeatStep_ne_exhausted {step : α → Parser (Option α)} {value : α}
    (hanswers : ∀ {value : α} {later : State}, Later state later →
      step value setup later ≠ .exhausted)
    (hadvances : ∀ value, Advances setup (step value)) :
    repeatStep step value setup state ≠ .exhausted :=
  iterate_ne_exhausted hanswers hadvances

/-- A chain does not run out of its budget if its operands do not, wherever they start, since each
step advances. -/
theorem chained_ne_exhausted {first : Parser α} {step : α → Parser (Option α)}
    (hfirst : first setup state ≠ .exhausted) (hbetween : Advances setup first)
    (hanswers : ∀ {value : α} {later : State}, Later state later →
      step value setup later ≠ .exhausted)
    (hadvances : ∀ value, Advances setup (step value)) :
    chained first step setup state ≠ .exhausted := by
  apply bind_ne_exhausted hfirst
  intro value between hvalue
  rw [depth_bind]
  have hloop : repeatStep step value setup between ≠ .exhausted :=
    repeatStep_ne_exhausted (fun hlast => hanswers ((hbetween.later hvalue).trans hlast)) hadvances
  exact bind_ne_exhausted hloop fun _ _ _ => done_ne_exhausted

/-! ### Pieces that answer

A piece of the grammar answers if its parts do, at the places where it calls them. -/

theorem operatorStep_ne_exhausted {level : Level} {operand : Parser Expr} {left : Expr}
    (hoperand : operand setup state.advanced.entered ≠ .exhausted) :
    operatorStep level operand left setup state ≠ .exhausted := by
  rw [operatorStep, peek_bind]
  cases level.operator? (nextKind state.kinds) with
  | none => exact done_ne_exhausted
  | some operator =>
      simp only [advance_bind]
      apply enter_bind_ne_exhausted
      exact bind_ne_exhausted hoperand fun _ _ _ => done_ne_exhausted

/-- A question mark does not use up the budget if its branches do not, as both start later. -/
theorem conditionalStep_ne_exhausted {branch : Parser Expr} {condition : Expr}
    (hbranch : ∀ {later}, Later state later → branch setup later ≠ .exhausted)
    (hadvances : Advances setup branch) :
    conditionalStep branch condition setup state ≠ .exhausted := by
  rw [conditionalStep, accept_bind]
  split
  next =>
    simp only [if_true]
    apply enter_bind_ne_exhausted
    have hfirst : Later state state.advanced.entered := .trans .advanced .entered
    refine bind_ne_exhausted (hbranch hfirst) fun _ between hwhenTrue => ?_
    apply bind_ne_exhausted expect_ne_exhausted
    intro _ behind hexpect
    obtain ⟨_, rfl⟩ := expect_eq_done_iff.1 hexpect
    have hsecond := hfirst.trans ((hadvances.later hwhenTrue).trans .advanced)
    exact bind_ne_exhausted (hbranch hsecond) fun _ _ _ => done_ne_exhausted
  next => exact done_ne_exhausted

theorem signed_ne_exhausted {operator : UnaryOp} {operand : Parser Expr}
    (hoperand : state.depth < setup.limit →
      operand setup state.advanced.entered ≠ .exhausted) :
    signed operator operand setup state ≠ .exhausted := by
  rw [signed, advance_bind]
  apply bind_ne_exhausted enter_ne_exhausted
  intro _ entered henter
  obtain ⟨hdepth, rfl⟩ := enter_eq_done_iff.1 henter
  exact bind_ne_exhausted (leaving_ne_exhausted (hoperand hdepth)) fun _ _ _ => done_ne_exhausted

/-- A call does not use up the budget if its arguments do not. -/
theorem call_ne_exhausted {start : Nat} {path name : String} {arguments : Parser (List Expr)}
    (harguments : nextKind state.kinds = .symbol .leftParen →
      arguments setup state.advanced ≠ .exhausted) :
    call start path name arguments setup state ≠ .exhausted := by
  rw [call]
  cases MathFunction.ofName? name with
  | none => exact failed_ne_exhausted
  | some function =>
      simp only [accept_bind]
      split
      next hopen =>
        simp only [if_true]
        exact bind_ne_exhausted (harguments hopen) fun _ _ _ => checkArity_ne_exhausted
      next =>
        simp only [Bool.false_eq_true, if_false]
        split
        · exact checkArity_ne_exhausted
        · exact fail_ne_exhausted

theorem argumentStep_ne_exhausted {statement : Parser Expr} {es : List Expr}
    (hstatement : statement setup state.advanced ≠ .exhausted) :
    argumentStep statement es setup state ≠ .exhausted := by
  rw [argumentStep, accept_bind]
  split
  next =>
    simp only [if_true]
    exact bind_ne_exhausted hstatement fun _ _ _ => done_ne_exhausted
  next => exact done_ne_exhausted

theorem statementStep_ne_exhausted {statement : Parser Expr} {es : List Expr}
    (hstatement : statement setup state.advanced ≠ .exhausted) :
    statementStep statement es setup state ≠ .exhausted := by
  rw [statementStep, peek_bind]
  split
  · simp only [advance_bind, peek_bind]
    split
    · exact done_ne_exhausted
    · exact bind_ne_exhausted hstatement fun _ _ _ => done_ne_exhausted
  · exact done_ne_exhausted

/-! ### Calls on a budget above their rank -/

/-- A number for each call that is lower for the calls made in its course.  An operand of a chain,
a branch and an argument may stand anywhere behind the place of the call. -/
structure Ranking (setup : Setup) where
  statement : State → Nat
  assignment : State → Nat
  ternary : State → Nat
  chain : Level → State → Nat
  fold : Level → State → Nat
  unary : State → Nat
  primary : State → Nat
  named : State → Nat
  arguments : State → Nat
  statement_assignment : ∀ {state}, state.depth < setup.limit →
    assignment state.entered < statement state
  assignment_ternary : ∀ {state}, ternary state < assignment state
  assignment_value : ∀ {state path}, nextKind state.kinds = .path path →
    statement state.advanced.advanced < assignment state
  ternary_chain : ∀ {state later}, Later state later → chain .or later < ternary state
  chain_fold : ∀ {level state}, fold level state < chain level state
  fold_tighter : ∀ {level tighter state later}, level.tighter = some tighter →
    Later state later → chain tighter later < fold level state
  fold_unary : ∀ {state later}, Later state later → unary later < fold .factor state
  unary_sign : ∀ {state symbol}, state.depth < setup.limit → nextKind state.kinds = .symbol symbol →
    unary state.advanced.entered < unary state
  unary_plus : ∀ {state}, nextKind state.kinds = .symbol .plus →
    unary state.advanced < unary state
  unary_primary : ∀ {state}, primary state < unary state
  primary_statement : ∀ {state}, nextKind state.kinds = .symbol .leftParen →
    statement state.advanced < primary state
  primary_named : ∀ {state path}, nextKind state.kinds = .path path →
    named state.advanced < primary state
  named_arguments : ∀ {state}, nextKind state.kinds = .symbol .leftParen →
    arguments state.advanced < named state
  arguments_statement : ∀ {state later}, Later state later → statement later < arguments state

/-- Calls answer if the budget is above their rank. -/
structure Ranking.Answers (ranking : Ranking setup) (budget : Nat) : Prop where
  statement : ∀ {state}, ranking.statement state < budget →
    Parser.statement budget setup state ≠ .exhausted
  assignment : ∀ {state}, ranking.assignment state < budget →
    Parser.assignment budget setup state ≠ .exhausted
  ternary : ∀ {state}, ranking.ternary state < budget →
    Parser.ternary budget setup state ≠ .exhausted
  chain : ∀ {level state}, ranking.chain level state < budget →
    Parser.chain level budget setup state ≠ .exhausted
  fold : ∀ {level state}, ranking.fold level state < budget →
    Parser.fold level budget setup state ≠ .exhausted
  unary : ∀ {state}, ranking.unary state < budget → Parser.unary budget setup state ≠ .exhausted
  primary : ∀ {state}, ranking.primary state < budget →
    Parser.primary budget setup state ≠ .exhausted
  named : ∀ {start path state}, ranking.named state < budget →
    Parser.named start path budget setup state ≠ .exhausted
  arguments : ∀ {state}, ranking.arguments state < budget →
    Parser.arguments budget setup state ≠ .exhausted

namespace Ranking.Answers

variable {ranking : Ranking setup}

theorem zero : ranking.Answers 0 where
  statement := nofun
  assignment := nofun
  ternary := nofun
  chain := nofun
  fold := nofun
  unary := nofun
  primary := nofun
  named := nofun
  arguments := nofun

variable (answers : ranking.Answers budget)
include answers

theorem statement_succ (hbudget : ranking.statement state < budget + 1) :
    Parser.statement (budget + 1) setup state ≠ .exhausted := by
  have hbudget := Nat.le_of_lt_succ hbudget
  rw [Parser.statement]
  apply bind_ne_exhausted enter_ne_exhausted
  intro _ entered henter
  obtain ⟨hdepth, rfl⟩ := enter_eq_done_iff.1 henter
  apply leaving_ne_exhausted
  exact answers.assignment (Nat.lt_of_lt_of_le (ranking.statement_assignment hdepth) hbudget)

theorem assignment_succ (hbudget : ranking.assignment state < budget + 1) :
    Parser.assignment (budget + 1) setup state ≠ .exhausted := by
  have hbudget := Nat.le_of_lt_succ hbudget
  rw [Parser.assignment, peekSecond_bind]
  cases assignment? (nextKind state.kinds.tail) with
  | none => exact answers.ternary (Nat.lt_of_lt_of_le ranking.assignment_ternary hbudget)
  | some operator =>
      apply bind_ne_exhausted target_ne_exhausted
      rintro ⟨scope, name⟩ between htarget
      obtain ⟨path, hpath, _, _, rfl⟩ := target_cases htarget
      have hvalue := answers.statement (Nat.lt_of_lt_of_le (ranking.assignment_value hpath) hbudget)
      simp only [advance_bind]
      exact bind_ne_exhausted hvalue fun _ _ _ => done_ne_exhausted

theorem branch {later : State} (hlater : Later state later)
    (hbudget : ranking.ternary state ≤ budget) :
    Parser.chain .or budget setup later ≠ .exhausted :=
  answers.chain (Nat.lt_of_lt_of_le (ranking.ternary_chain hlater) hbudget)

theorem ternary_succ (hbudget : ranking.ternary state < budget + 1) :
    Parser.ternary (budget + 1) setup state ≠ .exhausted := by
  have hbudget := Nat.le_of_lt_succ hbudget
  rw [Parser.ternary_succ]
  refine chained_ne_exhausted (answers.branch .refl hbudget) (.chain .or budget)
    (fun hlater => ?_) fun _ => (Advances.chain .or budget).conditionalStep
  exact conditionalStep_ne_exhausted (fun hbranch => answers.branch (hlater.trans hbranch) hbudget)
    (.chain .or budget)

/-- The operand of a level ranks below the fold of the level. -/
theorem operand {level : Level} {later : State} (hlater : Later state later)
    (hbudget : ranking.fold level state ≤ budget) :
    operand level budget setup later ≠ .exhausted := by
  cases htighter : level.tighter with
  | some tighter =>
      rw [operand_eq_chain htighter]
      exact answers.chain (Nat.lt_of_lt_of_le (ranking.fold_tighter htighter hlater) hbudget)
  | none =>
      cases level <;> cases htighter
      exact answers.unary (Nat.lt_of_lt_of_le (ranking.fold_unary hlater) hbudget)

theorem fold_succ {level : Level} (hbudget : ranking.fold level state < budget + 1) :
    Parser.fold level (budget + 1) setup state ≠ .exhausted := by
  have hbudget := Nat.le_of_lt_succ hbudget
  have hadvances : Advances setup (Parser.operand level budget) := .operand level budget
  rw [Parser.fold_succ]
  refine chained_ne_exhausted (answers.operand .refl hbudget) hadvances (fun hlater => ?_)
    fun _ => hadvances.operatorStep
  apply operatorStep_ne_exhausted
  exact answers.operand (hlater.trans (.trans .advanced .entered)) hbudget

theorem unary_succ (hbudget : ranking.unary state < budget + 1) :
    Parser.unary (budget + 1) setup state ≠ .exhausted := by
  have hbudget := Nat.le_of_lt_succ hbudget
  have hprimary : Parser.primary budget setup state ≠ .exhausted :=
    answers.primary (Nat.lt_of_lt_of_le ranking.unary_primary hbudget)
  have hsigned {operator : UnaryOp} {symbol : Symbol}
      (hnext : nextKind state.kinds = .symbol symbol) :
      signed operator (Parser.unary budget) setup state ≠ .exhausted :=
    signed_ne_exhausted fun hdepth =>
      answers.unary (Nat.lt_of_lt_of_le (ranking.unary_sign hdepth hnext) hbudget)
  rw [Parser.unary, peek_bind]
  cases hnext : nextKind state.kinds with
  | symbol symbol =>
      cases symbol with
      | minus => exact hsigned hnext
      | bang => exact hsigned hnext
      | plus => exact answers.unary (Nat.lt_of_lt_of_le (ranking.unary_plus hnext) hbudget)
      | _ => exact hprimary
  | _ => exact hprimary

theorem primary_succ (hbudget : ranking.primary state < budget + 1) :
    Parser.primary (budget + 1) setup state ≠ .exhausted := by
  have hbudget := Nat.le_of_lt_succ hbudget
  rw [Parser.primary, peek_bind]
  cases hnext : nextKind state.kinds with
  | number value => exact done_ne_exhausted
  | identifier name => exact fail_ne_exhausted
  | endOfInput => exact fail_ne_exhausted
  | symbol symbol =>
      cases symbol with
      | leftParen =>
          have hstatement := answers.statement
            (Nat.lt_of_lt_of_le (ranking.primary_statement hnext) hbudget)
          simp only [advance_bind]
          exact bind_ne_exhausted hstatement fun _ _ _ =>
            bind_ne_exhausted expect_ne_exhausted fun _ _ _ => done_ne_exhausted
      | _ => exact fail_ne_exhausted
  | path path =>
      simp only [offset_bind, advance_bind]
      exact answers.named (Nat.lt_of_lt_of_le (ranking.primary_named hnext) hbudget)

theorem named_succ {start : Nat} {path : String} (hbudget : ranking.named state < budget + 1) :
    Parser.named start path (budget + 1) setup state ≠ .exhausted := by
  have hbudget := Nat.le_of_lt_succ hbudget
  rw [Parser.named]
  cases functionName? path with
  | some name =>
      apply call_ne_exhausted
      intro hopen
      exact answers.arguments (Nat.lt_of_lt_of_le (ranking.named_arguments hopen) hbudget)
  | none => exact reference_ne_exhausted

theorem argument {later : State} (hlater : Later state later)
    (hbudget : ranking.arguments state ≤ budget) :
    Parser.statement budget setup later ≠ .exhausted :=
  answers.statement (Nat.lt_of_lt_of_le (ranking.arguments_statement hlater) hbudget)

theorem arguments_succ (hbudget : ranking.arguments state < budget + 1) :
    Parser.arguments (budget + 1) setup state ≠ .exhausted := by
  have hbudget := Nat.le_of_lt_succ hbudget
  have hadvances : Advances setup (Parser.statement budget) := .statement budget
  rw [Parser.arguments, accept_bind]
  split
  · exact done_ne_exhausted
  · simp only [Bool.false_eq_true, if_false]
    apply bind_ne_exhausted (answers.argument .refl hbudget)
    intro first between hfirst
    have hloop : repeatStep (argumentStep (Parser.statement budget)) [first] setup between ≠
        .exhausted := by
      refine repeatStep_ne_exhausted (fun hlater => ?_) fun _ => hadvances.argumentStep
      apply argumentStep_ne_exhausted
      exact answers.argument ((hadvances.later hfirst).trans (hlater.trans .advanced)) hbudget
    exact bind_ne_exhausted hloop fun _ _ _ =>
      bind_ne_exhausted expect_ne_exhausted fun _ _ _ => done_ne_exhausted

theorem succ : ranking.Answers (budget + 1) where
  statement := answers.statement_succ
  assignment := answers.assignment_succ
  ternary := answers.ternary_succ
  chain hbudget :=
    answers.fold (Nat.lt_of_lt_of_le ranking.chain_fold (Nat.le_of_lt_succ hbudget))
  fold := answers.fold_succ
  unary := answers.unary_succ
  primary := answers.primary_succ
  named := answers.named_succ
  arguments := answers.arguments_succ

end Ranking.Answers

theorem Ranking.answers (ranking : Ranking setup) (budget : Nat) : ranking.Answers budget := by
  induction budget with
  | zero => exact Answers.zero
  | succ budget ih => exact ih.succ

/-! ### Programs -/

/-- A program is read to its end or to an error, if the budget is above the rank of each
statement. -/
theorem Ranking.program_ne_exhausted (ranking : Ranking setup)
    (hbudget : ∀ later, Later state later → ranking.statement later < budget) :
    program budget setup state ≠ .exhausted := by
  have hstatement {later : State} (hlater : Later state later) :
      Parser.statement budget setup later ≠ .exhausted :=
    (ranking.answers budget).statement (hbudget later hlater)
  have hadvances : Advances setup (Parser.statement budget) := .statement budget
  rw [program]
  apply bind_ne_exhausted (hstatement .refl)
  intro first between hfirst
  have hloop : repeatStep (statementStep (Parser.statement budget)) [first] setup between ≠
      .exhausted := by
    refine repeatStep_ne_exhausted (fun hlater => ?_) fun _ => hadvances.statementStep
    apply statementStep_ne_exhausted
    exact hstatement ((hadvances.later hfirst).trans (hlater.trans .advanced))
  apply bind_ne_exhausted hloop
  intro es last _
  apply bind_ne_exhausted expect_ne_exhausted
  intro _ _ _
  split <;> exact done_ne_exhausted

end MotionScript.Parser
