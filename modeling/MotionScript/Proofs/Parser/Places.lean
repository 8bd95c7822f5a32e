import Mathlib.Data.List.Forall2
import MotionScript.Proofs.Parser.Steps
/-!
# The places of tokens

How a stream of tokens is read depends on the kinds of the tokens alone; their places only show up
in errors.  Two streams of the same kinds are therefore read alike: to the same value, or to errors
that say the same at places that belong together.  Which places belong together is a parameter.  For
two layouts of one text any two places do; for one stream beside itself the relation can say where a
place may lie.
-/

namespace MotionScript.Parser

variable {α β : Type} (together : Nat → Nat → Prop)

/-- Two tokens of one kind at places that belong together. -/
structure SameToken (left right : Token) : Prop where
  kind : left.kind = right.kind
  start : together left.start right.start

/-- Two setups with one limit, whose last tokens are at places that belong together. -/
structure SameSetup (left right : Setup) : Prop where
  limit : left.limit = right.limit
  lastOffset : together left.lastOffset right.lastOffset

/-- Two states at one nesting with the same kinds of tokens left. -/
structure SameState (left right : State) : Prop where
  tokens : List.Forall₂ (SameToken together) left.tokens right.tokens
  depth : left.depth = right.depth

/-- Two outcomes that differ in nothing but the places of tokens. -/
inductive SameOutcome : Outcome α → Outcome α → Prop where
  | done {left right : State} (value : α) (hstate : SameState together left right) :
      SameOutcome (.done value left) (.done value right)
  | failed {left right : State} {leftOffset rightOffset : Nat} (found : Found)
      (expected : Expected) (hoffset : together leftOffset rightOffset)
      (hstate : SameState together left right) :
      SameOutcome (.failed ⟨leftOffset, found, expected⟩ left)
        (.failed ⟨rightOffset, found, expected⟩ right)
  | exhausted : SameOutcome .exhausted .exhausted

/-- Two parsers that end alike wherever they are started alike. -/
def Alike (left right : Parser α) : Prop :=
  ∀ ⦃setup setup' : Setup⦄ ⦃state state' : State⦄, SameSetup together setup setup' →
    SameState together state state' →
    SameOutcome together (left setup state) (right setup' state')

variable {together}

namespace SameState

variable {state state' : State} (hstate : SameState together state state')
include hstate

theorem kinds : state.kinds = state'.kinds := by
  have hkinds : List.Forall₂ (· = ·) state.kinds state'.kinds :=
    List.forall₂_map_left_iff.2 (List.forall₂_map_right_iff.2
      (hstate.tokens.imp fun _ _ htoken => htoken.kind))
  exact List.forall₂_eq_eq_eq ▸ hkinds

/-- Streams of the same kinds go on with the same kinds. -/
theorem advanced : SameState together state.advanced state'.advanced where
  tokens := by
    obtain ⟨tokens, depth⟩ := state
    obtain ⟨tokens', depth'⟩ := state'
    cases hstate.tokens with
    | nil => exact List.Forall₂.nil
    | cons _ htail => exact htail
  depth := hstate.depth

theorem atDepth (depth : Nat) :
    SameState together ⟨state.tokens, depth⟩ ⟨state'.tokens, depth⟩ where
  tokens := hstate.tokens
  depth := rfl

theorem left : SameState together state.left state'.left where
  tokens := hstate.tokens
  depth := congrArg (· - 1) hstate.depth

/-- An error about the next token is at its place or, if there is none, at that of the last one. -/
theorem offset {setup setup' : Setup} (hsetup : SameSetup together setup setup') :
    together ((state.tokens.head?.map Token.start).getD setup.lastOffset)
      ((state'.tokens.head?.map Token.start).getD setup'.lastOffset) := by
  obtain ⟨tokens, depth⟩ := state
  obtain ⟨tokens', depth'⟩ := state'
  cases hstate.tokens with
  | nil => exact hsetup.lastOffset
  | cons htoken _ => exact htoken.start

end SameState

namespace Alike

theorem same (value : α) : Alike together (pure value) (pure value) :=
  fun _ _ _ _ _ hstate => .done value hstate

theorem exhausted : Alike together (exhausted : Parser α) Parser.exhausted :=
  fun _ _ _ _ _ _ => .exhausted

/-- Parsers that are alike are so one after the other. -/
theorem bind {left right : Parser α} {leftNext rightNext : α → Parser β}
    (hfirst : Alike together left right)
    (hnext : ∀ value, Alike together (leftNext value) (rightNext value)) :
    Alike together (left >>= leftNext) (right >>= rightNext) := by
  intro setup setup' state state' hsetup hstate
  have houtcome := hfirst hsetup hstate
  rw [bind_apply, bind_apply]
  generalize left setup state = outcome at houtcome ⊢
  generalize right setup' state' = outcome' at houtcome ⊢
  cases houtcome with
  | done value hbetween => exact hnext value hsetup hbetween
  | failed found expected hoffset hbetween => exact .failed found expected hoffset hbetween
  | exhausted => exact .exhausted

theorem ite {condition : Prop} [Decidable condition] {left right left' right' : Parser α}
    (hleft : Alike together left left') (hright : Alike together right right') :
    Alike together (if condition then left else right) (if condition then left' else right') := by
  split
  · exact hleft
  · exact hright

/-- The end of a level does not look at places. -/
theorem leaving {left right : Parser α} (hparser : Alike together left right) :
    Alike together (leaving left) (Parser.leaving right) := by
  intro setup setup' state state' hsetup hstate
  have houtcome := hparser hsetup hstate
  rw [leaving_apply, leaving_apply]
  generalize left setup state = outcome at houtcome ⊢
  generalize right setup' state' = outcome' at houtcome ⊢
  cases houtcome with
  | done value hlast => exact .done value hlast.left
  | failed found expected hoffset hlast => exact .failed found expected hoffset hlast.left
  | exhausted => exact .exhausted

/-! ### Building blocks -/

theorem peek : Alike together peek peek := by
  intro setup setup' state state' _ hstate
  change SameOutcome together
    (.done ((state.tokens.head?.map Token.kind).getD .endOfInput) state)
    (.done ((state'.tokens.head?.map Token.kind).getD .endOfInput) state')
  rw [nextKind_kinds, nextKind_kinds, hstate.kinds]
  exact .done _ hstate

theorem peekSecond : Alike together peekSecond peekSecond := by
  intro setup setup' state state' _ hstate
  change SameOutcome together
    (.done ((state.advanced.tokens.head?.map Token.kind).getD .endOfInput) state)
    (.done ((state'.advanced.tokens.head?.map Token.kind).getD .endOfInput) state')
  rw [nextKind_kinds, nextKind_kinds, hstate.advanced.kinds]
  exact .done _ hstate

theorem advance : Alike together advance advance :=
  fun _ _ _ _ _ hstate => .done () hstate.advanced

theorem depth : Alike together depth depth := by
  intro setup setup' state state' _ hstate
  change SameOutcome together (.done state.depth state) (.done state'.depth state')
  rw [hstate.depth]
  exact .done _ hstate

theorem setDepth (depth : Nat) : Alike together (setDepth depth) (setDepth depth) :=
  fun _ _ _ _ _ hstate => .done () (hstate.atDepth depth)

/-- The place of the next token may differ, within what belongs together. -/
theorem offset_bind {leftNext rightNext : Nat → Parser α}
    (hnext : ∀ left right, together left right → Alike together (leftNext left) (rightNext right)) :
    Alike together (offset >>= leftNext) (offset >>= rightNext) := by
  intro setup setup' state state' hsetup hstate
  rw [Parser.offset_bind, Parser.offset_bind]
  exact hnext _ _ (hstate.offset hsetup) hsetup hstate

theorem failAt {left right : Nat} (htogether : together left right) (found : Found)
    (expected : Expected) :
    Alike together (failAt left found expected : Parser α) (failAt right found expected) :=
  fun _ _ _ _ _ hstate => .failed found expected htogether hstate

theorem fail (expected : Expected) :
    Alike together (fail expected : Parser α) (fail expected) :=
  offset_bind fun _ _ htogether => peek.bind fun _ => failAt htogether _ expected

theorem accept (kind : Token.Kind) : Alike together (accept kind) (accept kind) :=
  peek.bind fun _ => .ite (advance.bind fun _ => .same true) (.same false)

theorem expect (kind : Token.Kind) (expected : Expected) :
    Alike together (expect kind expected) (expect kind expected) :=
  (accept kind).bind fun _ => .ite (.same ()) (.fail expected)

theorem enter : Alike together enter enter := by
  refine depth.bind fun level => (setDepth (level + 1)).bind fun _ => ?_
  intro setup setup' state state' hsetup hstate
  change SameOutcome together
    ((if setup.limit < level + 1 then (Parser.fail (.nesting setup.limit) : Parser Unit)
      else pure ()) setup state)
    ((if setup'.limit < level + 1 then (Parser.fail (.nesting setup'.limit) : Parser Unit)
      else pure ()) setup' state')
  rw [hsetup.limit]
  exact Alike.ite (fail _) (same ()) hsetup hstate

theorem target : Alike together target target := by
  apply peek.bind
  intro kind
  cases kind with
  | path path =>
      dsimp only
      split
      · exact .ite (.same _) (.fail _)
      · exact .fail _
  | _ => exact .fail _

theorem emptyParens : Alike together emptyParens emptyParens :=
  (accept _).bind fun _ => .ite (.expect _ _) (.same ())

theorem checkArity {left right : Nat} (htogether : together left right)
    (function : MathFunction) (arguments : List Expr) :
    Alike together (checkArity left function arguments) (checkArity right function arguments) :=
  .ite (.same _) (.failAt htogether _ _)

/-- The errors of a path are about its place, which is already passed. -/
theorem reference {left right : Nat} (htogether : together left right) (path : String) :
    Alike together (reference left path) (Parser.reference right path) := by
  rw [Parser.reference, Parser.reference]
  cases scopedName? path with
  | none => exact .failAt htogether _ _
  | some found => exact emptyParens.bind fun _ => .same _

/-! ### Loops -/

section Loops

variable {step : α → Parser (Option α)} (hstep : ∀ value, Alike together (step value) (step value))
include hstep

/-- A loop whose steps are alike runs alike. -/
theorem iterate (rounds : Nat) (value : α) :
    Alike together (iterate step rounds value) (Parser.iterate step rounds value) := by
  induction rounds generalizing value with
  | zero => exact .same value
  | succ rounds ih =>
      apply (hstep value).bind
      intro next
      cases next with
      | none => exact .same value
      | some next => exact ih next

theorem repeatStep (value : α) :
    Alike together (repeatStep step value) (Parser.repeatStep step value) := by
  intro setup setup' state state' hsetup hstate
  rw [Parser.repeatStep, Parser.repeatStep, hstate.tokens.length_eq]
  exact iterate hstep _ value hsetup hstate

theorem chained {first : Parser α} (hfirst : Alike together first first) :
    Alike together (chained first step) (Parser.chained first step) :=
  hfirst.bind fun value => depth.bind fun base => (repeatStep hstep value).bind fun result =>
    (setDepth base).bind fun _ => .same result

end Loops

/-! ### The pieces of the grammar -/

section Pieces

variable {part : Parser Expr} (hpart : Alike together part part)
include hpart

theorem conditionalStep (condition : Expr) :
    Alike together (conditionalStep part condition) (Parser.conditionalStep part condition) := by
  apply (accept (.symbol .question)).bind
  intro found
  cases found with
  | false => exact .same none
  | true =>
      exact enter.bind fun _ => hpart.bind fun whenTrue =>
        (expect (.symbol .colon) .colon).bind fun _ => hpart.bind fun whenFalse => .same _

theorem operatorStep (level : Level) (e : Expr) :
    Alike together (operatorStep level part e) (Parser.operatorStep level part e) := by
  apply peek.bind
  intro kind
  cases level.operator? kind with
  | none => exact .same none
  | some operator =>
      exact advance.bind fun _ => enter.bind fun _ => hpart.bind fun right => .same _

theorem signed (operator : UnaryOp) :
    Alike together (signed operator part) (Parser.signed operator part) :=
  advance.bind fun _ => enter.bind fun _ => hpart.leaving.bind fun _ => .same _

theorem argumentStep (es : List Expr) :
    Alike together (argumentStep part es) (Parser.argumentStep part es) := by
  apply (accept (.symbol .comma)).bind
  intro found
  cases found with
  | false => exact .same none
  | true => exact hpart.bind fun e => .same _

theorem statementStep (es : List Expr) :
    Alike together (statementStep part es) (Parser.statementStep part es) := by
  apply peek.bind
  intro kind
  cases isSeparator kind with
  | false => exact .same none
  | true =>
      exact advance.bind fun _ => peek.bind fun next =>
        .ite (.same none) (hpart.bind fun e => .same _)

end Pieces

/-- Calls at places that belong together are alike, also where the number of their arguments is
wrong. -/
theorem call {left right : Nat} {arguments : Parser (List Expr)}
    (harguments : Alike together arguments arguments) (htogether : together left right)
    (path name : String) :
    Alike together (call left path name arguments) (Parser.call right path name arguments) := by
  rw [Parser.call, Parser.call]
  cases MathFunction.ofName? name with
  | none => exact .failAt htogether _ _
  | some function =>
      apply (accept (.symbol .leftParen)).bind
      intro found
      exact .ite (harguments.bind fun es => .checkArity htogether function es)
        (.ite (.checkArity htogether function []) (.fail _))

end Alike

/-! ### The functions of the grammar -/

/-- Every function of the grammar reads streams of the same kinds alike, on a budget. -/
structure ReadsAlike (together : Nat → Nat → Prop) (budget : Nat) : Prop where
  statement : Alike together (statement budget) (statement budget)
  assignment : Alike together (assignment budget) (assignment budget)
  ternary : Alike together (ternary budget) (ternary budget)
  chain : ∀ level, Alike together (chain level budget) (chain level budget)
  fold : ∀ level, Alike together (fold level budget) (fold level budget)
  unary : Alike together (unary budget) (unary budget)
  primary : Alike together (primary budget) (primary budget)
  named : ∀ {left right}, together left right → ∀ path,
    Alike together (named left path budget) (named right path budget)
  arguments : Alike together (arguments budget) (arguments budget)

namespace ReadsAlike

theorem zero : ReadsAlike together 0 where
  statement := .exhausted
  assignment := .exhausted
  ternary := .exhausted
  chain _ := .exhausted
  fold _ := .exhausted
  unary := .exhausted
  primary := .exhausted
  named _ _ := .exhausted
  arguments := .exhausted

variable {budget : Nat} (alike : ReadsAlike together budget)
include alike

theorem assignment_succ :
    Alike together (Parser.assignment (budget + 1)) (Parser.assignment (budget + 1)) := by
  apply Alike.peekSecond.bind
  intro kind
  cases assignment? kind with
  | none => exact alike.ternary
  | some operator =>
      exact Alike.target.bind fun written => Alike.advance.bind fun _ => Alike.advance.bind fun _ =>
        alike.statement.bind fun value => .same _

theorem operand (level : Level) :
    Alike together (operand level budget) (Parser.operand level budget) := by
  cases level with
  | factor => exact alike.unary
  | _ => exact alike.chain _

theorem unary_succ :
    Alike together (Parser.unary (budget + 1)) (Parser.unary (budget + 1)) := by
  apply Alike.peek.bind
  intro kind
  cases kind with
  | symbol symbol =>
      cases symbol with
      | minus => exact alike.unary.signed .neg
      | bang => exact alike.unary.signed .not
      | plus => exact Alike.advance.bind fun _ => alike.unary
      | _ => exact alike.primary
  | _ => exact alike.primary

theorem primary_succ :
    Alike together (Parser.primary (budget + 1)) (Parser.primary (budget + 1)) := by
  apply Alike.peek.bind
  intro kind
  cases kind with
  | symbol symbol =>
      cases symbol with
      | leftParen =>
          exact Alike.advance.bind fun _ => alike.statement.bind fun e =>
            (Alike.expect _ _).bind fun _ => .same e
      | _ => exact .fail _
  | path path =>
      apply Alike.offset_bind
      intro left right htogether
      exact Alike.advance.bind fun _ => alike.named htogether path
  | number value => exact Alike.advance.bind fun _ => .same _
  | _ => exact .fail _

theorem named_succ {left right : Nat} (htogether : together left right) (path : String) :
    Alike together (Parser.named left path (budget + 1))
      (Parser.named right path (budget + 1)) := by
  rw [Parser.named, Parser.named]
  cases functionName? path with
  | some name => exact alike.arguments.call htogether path name
  | none => exact .reference htogether path

theorem arguments_succ :
    Alike together (Parser.arguments (budget + 1)) (Parser.arguments (budget + 1)) := by
  rw [Parser.arguments]
  apply (Alike.accept (.symbol .rightParen)).bind
  intro found
  cases found with
  | true => exact .same []
  | false =>
      exact alike.statement.bind fun first =>
        (Alike.repeatStep alike.statement.argumentStep [first]).bind fun es =>
          (Alike.expect _ _).bind fun _ => .same es

theorem succ : ReadsAlike together (budget + 1) where
  statement := Alike.enter.bind fun _ => alike.assignment.leaving
  assignment := alike.assignment_succ
  ternary := Alike.chained (alike.chain .or).conditionalStep (alike.chain .or)
  chain := alike.fold
  fold level := Alike.chained ((alike.operand level).operatorStep level) (alike.operand level)
  unary := alike.unary_succ
  primary := alike.primary_succ
  named := alike.named_succ
  arguments := alike.arguments_succ

end ReadsAlike

theorem readsAlike (together : Nat → Nat → Prop) (budget : Nat) : ReadsAlike together budget := by
  induction budget with
  | zero => exact .zero
  | succ budget ih => exact ih.succ

/-- Two streams of the same kinds are the same program up to the places of its errors. -/
theorem program_alike (together : Nat → Nat → Prop) (budget : Nat) :
    Alike together (program budget) (program budget) := by
  have halike := readsAlike together budget
  rw [program]
  apply halike.statement.bind
  intro first
  apply (Alike.repeatStep halike.statement.statementStep [first]).bind
  intro es
  apply (Alike.expect .endOfInput .endOfInput).bind
  intro _
  split <;> exact .same _

/-! ### Trees and errors -/

/-- The place of errors that are met after the last token. -/
def lastOffset (tokens : List Token) : Nat :=
  (tokens.getLast?.map Token.start).getD 0

theorem ofTokens_eq (limit : Nat) (tokens : List Token) : Expr.ofTokens limit tokens =
    match program (sufficientBudget tokens) ⟨limit, lastOffset tokens⟩ ⟨tokens, 0⟩ with
    | .done e _ => .ok e
    | .failed error _ => .error error
    | .exhausted => .error ⟨lastOffset tokens, .token .endOfInput, .nesting limit⟩ :=
  rfl

/-- Two results that differ in nothing but the place of an error. -/
inductive SameResult (together : Nat → Nat → Prop) :
    Except ParseError α → Except ParseError α → Prop where
  | ok (value : α) : SameResult together (.ok value) (.ok value)
  | error {leftOffset rightOffset : Nat} (found : Found) (expected : Expected)
      (hoffset : together leftOffset rightOffset) :
      SameResult together (.error ⟨leftOffset, found, expected⟩)
        (.error ⟨rightOffset, found, expected⟩)

/-- Two streams of the same kinds stand for the same tree, or are turned down alike. -/
theorem ofTokens_alike {tokens tokens' : List Token} (limit : Nat)
    (htokens : List.Forall₂ (SameToken together) tokens tokens')
    (hlast : together (lastOffset tokens) (lastOffset tokens')) :
    SameResult together (Expr.ofTokens limit tokens) (Expr.ofTokens limit tokens') := by
  have hbudget : sufficientBudget tokens = sufficientBudget tokens' := by
    rw [sufficientBudget, sufficientBudget, htokens.length_eq]
  have hsetup : SameSetup together ⟨limit, lastOffset tokens⟩ ⟨limit, lastOffset tokens'⟩ :=
    ⟨rfl, hlast⟩
  have hstate : SameState together ⟨tokens, 0⟩ ⟨tokens', 0⟩ := ⟨htokens, rfl⟩
  have houtcome := program_alike together (sufficientBudget tokens) hsetup hstate
  rw [ofTokens_eq, ofTokens_eq, ← hbudget]
  generalize program _ _ ⟨tokens, 0⟩ = outcome at houtcome ⊢
  generalize program _ _ ⟨tokens', 0⟩ = outcome' at houtcome ⊢
  cases houtcome with
  | done e hend => exact .ok e
  | failed found expected hoffset hend => exact .error found expected hoffset
  | exhausted => exact .error _ _ hlast

end MotionScript.Parser
