import MotionScript.Proofs.Parser.Steps
/-!
# The count of levels is balanced

Statements, signs and the steps of chains enter levels of nesting.  A statement and a sign leave
their level whether they end with a value or with an error.  A chain gives back the levels of its
steps all at once, and only behind a value: an error is raised with the levels of the chains around
it still counted.  So a value is found at the nesting of its call and an error at no lower one.
That makes leaving safe: the level that a call leaves is the one that it has entered itself, and
nothing in between has gone below it.
-/

namespace MotionScript.Parser

variable {α β : Type} {setup : Setup} {state state' : State}

/-- A parser that never ends at a lower nesting than the one it is called at. -/
structure NeverBelow (parser : Parser α) : Prop where
  done : ∀ {setup state value last}, parser setup state = .done value last →
    state.depth ≤ last.depth
  failed : ∀ {setup state error last}, parser setup state = .failed error last →
    state.depth ≤ last.depth

/-- A parser that ends with a value at the nesting it is called at, and with an error at no lower
one. -/
structure Balanced (parser : Parser α) : Prop where
  done : ∀ {setup state value last}, parser setup state = .done value last →
    last.depth = state.depth
  failed : ∀ {setup state error last}, parser setup state = .failed error last →
    state.depth ≤ last.depth

theorem Balanced.neverBelow {parser : Parser α} (hparser : Balanced parser) :
    NeverBelow parser where
  done hrun := Nat.le_of_eq (hparser.done hrun).symm
  failed := hparser.failed

/-! ### Runs that end with an error -/

/-- A parse fails in its first part, or after it in the second one. -/
theorem bind_eq_failed_iff {parser : Parser α} {next : α → Parser β} {error : ParseError} :
    (parser >>= next) setup state = .failed error state' ↔
      parser setup state = .failed error state' ∨
        ∃ value between, parser setup state = .done value between ∧
          next value setup between = .failed error state' := by
  constructor
  · intro hrun
    rw [bind_apply] at hrun
    split at hrun
    next value between hfirst => exact Or.inr ⟨value, between, hfirst, hrun⟩
    next hfirst => cases hrun; exact Or.inl hfirst
    next => cases hrun
  · rintro (hfirst | ⟨value, between, hfirst, hnext⟩)
    · rw [bind_apply, hfirst]
    · rw [bind_of_done next hfirst, hnext]

/-- A level is left also where the parse inside it fails. -/
theorem exists_failed_of_leaving {parser : Parser α} {error : ParseError}
    (hrun : leaving parser setup state = .failed error state') :
    ∃ last, parser setup state = .failed error last ∧ last.left = state' := by
  rw [leaving_apply] at hrun
  split at hrun
  next => cases hrun
  next error last hparser => cases hrun; exact ⟨last, hparser, rfl⟩
  next => cases hrun

/-- A level that is one too many is counted when its error is raised. -/
theorem entered_of_enter_failed {error : ParseError}
    (hrun : enter setup state = .failed error state') : state' = state.entered := by
  rw [enter_apply] at hrun
  split at hrun
  · rw [fail_apply] at hrun
    cases hrun
    rfl
  · cases hrun

/-! ### Putting parsers together -/

/-- Two parsers in a row never go below the level that the first one starts at. -/
theorem NeverBelow.bind {parser : Parser α} {next : α → Parser β} (hparser : NeverBelow parser)
    (hnext : ∀ value, NeverBelow (next value)) : NeverBelow (parser >>= next) where
  done hrun := by
    obtain ⟨value, between, hfirst, hrest⟩ := bind_eq_done_iff.1 hrun
    exact Nat.le_trans (hparser.done hfirst) ((hnext value).done hrest)
  failed hrun := by
    obtain hfirst | ⟨value, between, hfirst, hrest⟩ := bind_eq_failed_iff.1 hrun
    · exact hparser.failed hfirst
    · exact Nat.le_trans (hparser.done hfirst) ((hnext value).failed hrest)

theorem NeverBelow.enter : NeverBelow enter where
  done hrun := by
    obtain ⟨_, rfl⟩ := enter_eq_done_iff.1 hrun
    exact Nat.le_succ _
  failed hrun := by
    rw [entered_of_enter_failed hrun]
    exact Nat.le_succ _

/-- It does not matter where a run of parsers is cut. -/
theorem bind_assoc {γ : Type} (parser : Parser α) (next : α → Parser β) (last : β → Parser γ) :
    (parser >>= next) >>= last = parser >>= fun value => next value >>= last := by
  funext setup state
  rw [bind_apply, bind_apply, bind_apply]
  cases parser setup state <;> rfl

/-- The rounds that a loop may make. -/
def tokensLeft : Parser Nat := fun _ state =>
  .done state.tokens.length state

theorem repeatStep_eq (step : α → Parser (Option α)) (value : α) :
    repeatStep step value = tokensLeft >>= fun rounds => iterate step rounds value := rfl

/-- What is kept by putting parsers one behind the other is kept by a loop of them. -/
theorem repeatStep_of_bind {kept : {γ : Type} → Parser γ → Prop}
    (hsame : ∀ {γ : Type} (value : γ), kept (pure value : Parser γ))
    (hbind : ∀ {γ δ : Type} {parser : Parser γ} {next : γ → Parser δ}, kept parser →
      (∀ value, kept (next value)) → kept (parser >>= next))
    (htokensLeft : kept tokensLeft) {step : α → Parser (Option α)}
    (hstep : ∀ value, kept (step value)) (value : α) : kept (repeatStep step value) := by
  rw [repeatStep_eq]
  apply hbind htokensLeft
  intro rounds
  induction rounds generalizing value with
  | zero => exact hsame value
  | succ rounds ih =>
      apply hbind (hstep value)
      intro next
      cases next with
      | none => exact hsame value
      | some next => exact ih next

namespace Balanced

/-- Balanced parsers in a row are balanced. -/
theorem bind {parser : Parser α} {next : α → Parser β} (hparser : Balanced parser)
    (hnext : ∀ value, Balanced (next value)) : Balanced (parser >>= next) where
  done hrun := by
    obtain ⟨value, between, hfirst, hrest⟩ := bind_eq_done_iff.1 hrun
    exact ((hnext value).done hrest).trans (hparser.done hfirst)
  failed := (hparser.neverBelow.bind fun value => (hnext value).neverBelow).failed

theorem ite {condition : Prop} [Decidable condition] {left right : Parser α}
    (hleft : Balanced left) (hright : Balanced right) :
    Balanced (if condition then left else right) := by
  split
  · exact hleft
  · exact hright

/-! ### Building blocks -/

theorem exhausted : Balanced (exhausted : Parser α) where
  done := nofun
  failed := nofun

/-- Looking at the tokens and passing them does not touch the nesting. -/
theorem of_done {value : Setup → State → α} {last : State → State}
    (hdepth : ∀ state, (last state).depth = state.depth) :
    Balanced fun setup state => .done (value setup state) (last state) where
  done hrun := by cases hrun; exact hdepth _
  failed := nofun

theorem same (value : α) : Balanced (pure value) :=
  of_done fun _ => rfl

theorem peek : Balanced peek :=
  of_done fun _ => rfl

theorem peekSecond : Balanced peekSecond :=
  of_done fun _ => rfl

theorem advance : Balanced advance :=
  of_done fun _ => rfl

theorem tokensLeft : Balanced tokensLeft :=
  of_done fun _ => rfl

theorem offset : Balanced offset :=
  of_done fun _ => rfl

theorem failAt (offset : Nat) (found : Found) (expected : Expected) :
    Balanced (failAt offset found expected : Parser α) where
  done := nofun
  failed hrun := by cases hrun; exact Nat.le_refl _

theorem fail (expected : Expected) : Balanced (fail expected : Parser α) :=
  offset.bind fun _ => peek.bind fun _ => .failAt _ _ expected

theorem accept (kind : Token.Kind) : Balanced (accept kind) :=
  peek.bind fun _ => .ite (advance.bind fun _ => .same true) (.same false)

theorem expect (kind : Token.Kind) (expected : Expected) : Balanced (expect kind expected) :=
  (accept kind).bind fun _ => .ite (.same ()) (.fail expected)

theorem target : Balanced target := by
  apply peek.bind
  intro kind
  cases kind with
  | path path =>
      dsimp only
      split
      · exact .ite (.same _) (.fail _)
      · exact .fail _
  | _ => exact .fail _

theorem emptyParens : Balanced emptyParens :=
  (accept _).bind fun _ => .ite (.expect _ _) (.same ())

theorem checkArity (offset : Nat) (function : MathFunction) (arguments : List Expr) :
    Balanced (checkArity offset function arguments) :=
  .ite (.same _) (.failAt _ _ _)

theorem reference (start : Nat) (path : String) : Balanced (reference start path) := by
  rw [Parser.reference]
  cases scopedName? path with
  | none => exact .failAt _ _ _
  | some found => exact emptyParens.bind fun _ => .same _

/-! ### Levels, lists and chains -/

/-- A level that is entered is left behind a value and behind an error. -/
theorem nested {parser : Parser α} (hparser : Balanced parser) :
    Balanced (enter >>= fun _ => leaving parser) where
  done hrun := by
    obtain ⟨_, entered, henter, hrest⟩ := bind_eq_done_iff.1 hrun
    obtain ⟨_, rfl⟩ := enter_eq_done_iff.1 henter
    obtain ⟨last, hlast, rfl⟩ := exists_of_leaving hrest
    rw [depth_left, hparser.done hlast, depth_entered, Nat.add_sub_cancel]
  failed hrun := by
    obtain henter | ⟨_, entered, henter, hrest⟩ := bind_eq_failed_iff.1 hrun
    · exact NeverBelow.enter.failed henter
    · obtain ⟨_, rfl⟩ := enter_eq_done_iff.1 henter
      obtain ⟨last, hlast, rfl⟩ := exists_failed_of_leaving hrest
      exact Nat.le_sub_one_of_lt (hparser.failed hlast)

theorem repeatStep {step : α → Parser (Option α)} (hstep : ∀ value, Balanced (step value))
    (value : α) : Balanced (repeatStep step value) :=
  repeatStep_of_bind same bind tokensLeft hstep value

/-- A chain keeps the levels of its steps counted until it ends with a value. -/
theorem chained {first : Parser α} {step : α → Parser (Option α)} (hfirst : Balanced first)
    (hstep : ∀ value, NeverBelow (step value)) : Balanced (chained first step) where
  done hrun := by
    obtain ⟨value, between, last, hvalue, _, rfl⟩ := chained_cases hrun
    have hbetween := hfirst.done hvalue
    exact hbetween
  failed hrun := by
    obtain hfailed | ⟨value, between, hvalue, hrest⟩ := bind_eq_failed_iff.1 hrun
    · exact hfirst.failed hfailed
    -- The nesting to return to is that behind the first operand, which is that of the call.
    · rw [depth_bind] at hrest
      obtain hloop | ⟨_, _, _, hended⟩ := bind_eq_failed_iff.1 hrest
      · have hrounds := repeatStep_of_bind (fun value => (same value).neverBelow) NeverBelow.bind
          tokensLeft.neverBelow hstep value
        rw [← hfirst.done hvalue]
        exact hrounds.failed hloop
      · cases hended

/-! ### The pieces of the grammar -/

section Pieces

variable {part : Parser Expr} (hpart : Balanced part)
include hpart

/-- The level of a condition stays counted. -/
theorem conditionalStep (condition : Expr) : NeverBelow (conditionalStep part condition) := by
  apply (accept (.symbol .question)).neverBelow.bind
  intro found
  cases found with
  | false => exact (same none).neverBelow
  | true =>
      exact NeverBelow.enter.bind fun _ => (hpart.bind fun whenTrue =>
        (expect (.symbol .colon) .colon).bind fun _ =>
          hpart.bind fun whenFalse => .same _).neverBelow

/-- The level of an operator stays counted. -/
theorem operatorStep (level : Level) (left : Expr) :
    NeverBelow (operatorStep level part left) := by
  apply peek.neverBelow.bind
  intro kind
  cases level.operator? kind with
  | none => exact (same none).neverBelow
  | some operator =>
      exact advance.neverBelow.bind fun _ => NeverBelow.enter.bind fun _ =>
        (hpart.bind fun right => .same _).neverBelow

/-- A sign enters a level and leaves it behind its operand. -/
theorem signed (operator : UnaryOp) : Balanced (signed operator part) := by
  rw [Parser.signed]
  apply advance.bind
  intro _
  -- Entering and leaving belong together, and neither is balanced alone.
  rw [← bind_assoc]
  exact hpart.nested.bind fun operand => .same _

theorem argumentStep (es : List Expr) : Balanced (argumentStep part es) := by
  apply (accept (.symbol .comma)).bind
  intro found
  cases found with
  | false => exact .same none
  | true => exact hpart.bind fun e => .same _

theorem statementStep (es : List Expr) : Balanced (statementStep part es) := by
  apply peek.bind
  intro kind
  cases isSeparator kind with
  | false => exact .same none
  | true =>
      exact advance.bind fun _ => peek.bind fun next =>
        .ite (.same none) (hpart.bind fun e => .same _)

end Pieces

/-- A call is balanced if its arguments are. -/
theorem call {arguments : Parser (List Expr)} (harguments : Balanced arguments) (start : Nat)
    (path name : String) : Balanced (call start path name arguments) := by
  rw [Parser.call]
  cases MathFunction.ofName? name with
  | none => exact .failAt _ _ _
  | some function =>
      apply (accept (.symbol .leftParen)).bind
      intro found
      exact .ite (harguments.bind fun es => .checkArity start function es)
        (.ite (.checkArity start function []) (.fail _))

end Balanced

/-! ### The functions of the grammar -/

/-- What is called with the budget is balanced. -/
structure KeepsBalance (budget : Nat) : Prop where
  statement : Balanced (statement budget)
  assignment : Balanced (assignment budget)
  ternary : Balanced (ternary budget)
  chain : ∀ level, Balanced (chain level budget)
  fold : ∀ level, Balanced (fold level budget)
  unary : Balanced (unary budget)
  primary : Balanced (primary budget)
  named : ∀ start path, Balanced (named start path budget)
  arguments : Balanced (arguments budget)

namespace KeepsBalance

theorem zero : KeepsBalance 0 where
  statement := .exhausted
  assignment := .exhausted
  ternary := .exhausted
  chain _ := .exhausted
  fold _ := .exhausted
  unary := .exhausted
  primary := .exhausted
  named _ _ := .exhausted
  arguments := .exhausted

variable {budget : Nat} (keeps : KeepsBalance budget)
include keeps

theorem assignment_succ : Balanced (Parser.assignment (budget + 1)) := by
  apply Balanced.peekSecond.bind
  intro kind
  cases assignment? kind with
  | none => exact keeps.ternary
  | some operator =>
      exact Balanced.target.bind fun written => Balanced.advance.bind fun _ =>
        Balanced.advance.bind fun _ => keeps.statement.bind fun value => .same _

theorem operand (level : Level) : Balanced (operand level budget) := by
  cases level with
  | factor => exact keeps.unary
  | _ => exact keeps.chain _

theorem unary_succ : Balanced (Parser.unary (budget + 1)) := by
  apply Balanced.peek.bind
  intro kind
  cases kind with
  | symbol symbol =>
      cases symbol with
      | minus => exact keeps.unary.signed .neg
      | bang => exact keeps.unary.signed .not
      | plus => exact Balanced.advance.bind fun _ => keeps.unary
      | _ => exact keeps.primary
  | _ => exact keeps.primary

theorem primary_succ : Balanced (Parser.primary (budget + 1)) := by
  apply Balanced.peek.bind
  intro kind
  cases kind with
  | symbol symbol =>
      cases symbol with
      | leftParen =>
          exact Balanced.advance.bind fun _ => keeps.statement.bind fun e =>
            (Balanced.expect _ _).bind fun _ => .same e
      | _ => exact .fail _
  | path path =>
      exact Balanced.offset.bind fun start => Balanced.advance.bind fun _ =>
        keeps.named start path
  | number value => exact Balanced.advance.bind fun _ => .same _
  | _ => exact .fail _

theorem named_succ (start : Nat) (path : String) :
    Balanced (Parser.named start path (budget + 1)) := by
  rw [Parser.named]
  cases functionName? path with
  | some name => exact keeps.arguments.call start path name
  | none => exact .reference start path

theorem arguments_succ : Balanced (Parser.arguments (budget + 1)) := by
  rw [Parser.arguments]
  apply (Balanced.accept (.symbol .rightParen)).bind
  intro found
  cases found with
  | true => exact .same []
  | false =>
      exact keeps.statement.bind fun first =>
        (Balanced.repeatStep keeps.statement.argumentStep [first]).bind fun es =>
          (Balanced.expect _ _).bind fun _ => .same es

theorem succ : KeepsBalance (budget + 1) where
  statement := keeps.assignment.nested
  assignment := keeps.assignment_succ
  ternary := (keeps.chain .or).chained (keeps.chain .or).conditionalStep
  chain := keeps.fold
  fold level := (keeps.operand level).chained ((keeps.operand level).operatorStep level)
  unary := keeps.unary_succ
  primary := keeps.primary_succ
  named := keeps.named_succ
  arguments := keeps.arguments_succ

end KeepsBalance

theorem keepsBalance (budget : Nat) : KeepsBalance budget := by
  induction budget with
  | zero => exact KeepsBalance.zero
  | succ budget ih => exact ih.succ

/-- A whole parse leaves as many levels as it enters, whether it succeeds or fails. -/
theorem program_balanced (budget : Nat) : Balanced (program budget) := by
  have hkeeps := keepsBalance budget
  rw [program]
  apply hkeeps.statement.bind
  intro first
  apply (Balanced.repeatStep hkeeps.statement.statementStep [first]).bind
  intro es
  apply (Balanced.expect .endOfInput .endOfInput).bind
  intro _
  split <;> exact .same _

/-! ### Leaving is safe -/

/-- Goes one level up after a parser has ended, and gives no answer where there is no level to
leave. -/
def checkedLeaving (parser : Parser α) : Parser α := fun setup state =>
  match parser setup state with
  | .done value last => if last.depth = 0 then .exhausted else .done value last.left
  | .failed error last => if last.depth = 0 then .exhausted else .failed error last.left
  | .exhausted => .exhausted

/-- Where the depth is positive, the subtraction that ends a level never has to stop at zero. -/
theorem Balanced.checkedLeaving_eq {parser : Parser α} (hparser : Balanced parser)
    (hdepth : 0 < state.depth) :
    checkedLeaving parser setup state = leaving parser setup state := by
  rw [checkedLeaving, leaving_apply]
  cases hrun : parser setup state with
  | done value last =>
      have hlast := hparser.done hrun
      exact if_neg (by omega)
  | failed error last =>
      have hlast := hparser.failed hrun
      exact if_neg (by omega)
  | exhausted => rfl

/-- Behind the entry of a level there is a level to leave. -/
theorem enter_bind_congr {left right : Parser α}
    (hsame : ∀ {setup state}, 0 < state.depth → left setup state = right setup state) :
    (enter >>= fun _ => left) = enter >>= fun _ => right := by
  funext setup state
  rw [bind_apply, bind_apply]
  cases henter : enter setup state with
  | done _ entered =>
      obtain ⟨_, rfl⟩ := enter_eq_done_iff.1 henter
      exact hsame (Nat.succ_pos _)
  | failed error last => rfl
  | exhausted => rfl

/-- An operand behind a sign, whose level is left with the check. -/
def checkedSigned (operator : UnaryOp) (operand : Parser Expr) : Parser Expr := do
  advance
  enter
  return .unary operator (← checkedLeaving operand)

theorem Balanced.nested_eq_checked {parser : Parser α} (hparser : Balanced parser) :
    (do enter; leaving parser) = (do enter; checkedLeaving parser) :=
  enter_bind_congr fun hdepth => (hparser.checkedLeaving_eq hdepth).symm

theorem Balanced.signed_eq_checked {operand : Parser Expr} (hoperand : Balanced operand)
    (operator : UnaryOp) : Parser.signed operator operand = checkedSigned operator operand := by
  rw [Parser.signed, checkedSigned]
  refine congrArg (Parser.advance >>= ·) (funext fun _ => enter_bind_congr fun hdepth => ?_)
  rw [bind_apply, bind_apply, hoperand.checkedLeaving_eq hdepth]

/-- Every function of the parser ends with a value at the nesting of its call, and with an error at
no lower one.  Statements and signs, which leave levels, never do so at a nesting of zero: with a
check that gives no answer there they are the same parsers. -/
theorem nesting_balanced (budget : Nat) :
    (Balanced (program budget) ∧ Balanced (statement budget) ∧ Balanced (assignment budget) ∧
      Balanced (ternary budget) ∧ (∀ level, Balanced (chain level budget)) ∧
      (∀ level, Balanced (fold level budget)) ∧ Balanced (unary budget) ∧
      Balanced (primary budget) ∧ (∀ start path, Balanced (named start path budget)) ∧
      Balanced (arguments budget)) ∧
    statement (budget + 1) = (do enter; checkedLeaving (assignment budget)) ∧
    unary (budget + 1) = (do
      match ← peek with
      | .symbol .minus => checkedSigned .neg (unary budget)
      | .symbol .bang => checkedSigned .not (unary budget)
      | .symbol .plus =>
        advance
        unary budget
      | _ => primary budget) := by
  have hkeeps := keepsBalance budget
  refine ⟨⟨program_balanced budget, hkeeps.statement, hkeeps.assignment, hkeeps.ternary,
    hkeeps.chain, hkeeps.fold, hkeeps.unary, hkeeps.primary, hkeeps.named, hkeeps.arguments⟩,
    hkeeps.assignment.nested_eq_checked, ?_⟩
  rw [← hkeeps.unary.signed_eq_checked, ← hkeeps.unary.signed_eq_checked]
  rfl

/-- The error is raised in the second operand, two levels deep.  The statement has left its own
level, and that of the chain's step is still counted. -/
example : statement 20 ⟨9, 2⟩ ⟨[⟨.number 2, 0, 1⟩, ⟨.symbol .star, 1, 2⟩,
      ⟨.symbol .rightParen, 2, 3⟩], 0⟩ =
    .failed ⟨2, .token (.symbol .rightParen), .expression⟩ ⟨[⟨.symbol .rightParen, 2, 3⟩], 1⟩ := by
  rfl

end MotionScript.Parser
