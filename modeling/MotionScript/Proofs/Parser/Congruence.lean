import MotionScript.Proofs.Parser.Steps
/-!
# Relations that the grammar keeps

The functions of the grammar are put together from a few building blocks, and entering a level is
the only one of them that looks at the limit of nesting.  So a relation between parsers that is kept
by putting parsers together holds of every function of the grammar, on a budget and on every larger
one, as soon as it holds of entering a level and of what does not look at the limit.
-/

namespace MotionScript.Parser

variable {α β : Type}

/-- A parser does the same whatever the limit of nesting is. -/
def IgnoresLimit (parser : Parser α) : Prop :=
  ∀ limit lastOffset state, parser ⟨limit, lastOffset⟩ state = parser ⟨0, lastOffset⟩ state

namespace IgnoresLimit

/-- Parsers that ignore the limit do so one after the other. -/
theorem bind {first : Parser α} {next : α → Parser β} (hfirst : IgnoresLimit first)
    (hnext : ∀ value, IgnoresLimit (next value)) : IgnoresLimit (first >>= next) := by
  intro limit lastOffset state
  rw [bind_apply, bind_apply, hfirst limit]
  cases first ⟨0, lastOffset⟩ state with
  | done value between => exact hnext value limit lastOffset between
  | failed error between => rfl
  | exhausted => rfl

theorem ite {condition : Prop} [Decidable condition] {left right : Parser α}
    (hleft : IgnoresLimit left) (hright : IgnoresLimit right) :
    IgnoresLimit (if condition then left else right) := by
  split
  · exact hleft
  · exact hright

theorem same (value : α) : IgnoresLimit (pure value) :=
  fun _ _ _ => rfl

theorem peek : IgnoresLimit peek :=
  fun _ _ _ => rfl

theorem peekSecond : IgnoresLimit peekSecond :=
  fun _ _ _ => rfl

theorem offset : IgnoresLimit offset :=
  fun _ _ _ => rfl

theorem depth : IgnoresLimit depth :=
  fun _ _ _ => rfl

theorem setDepth (depth : Nat) : IgnoresLimit (setDepth depth) :=
  fun _ _ _ => rfl

theorem advance : IgnoresLimit advance :=
  fun _ _ _ => rfl

theorem fail (expected : Expected) : IgnoresLimit (fail expected : Parser α) :=
  fun _ _ _ => rfl

theorem failAt (offset : Nat) (found : Found) (expected : Expected) :
    IgnoresLimit (failAt offset found expected : Parser α) :=
  fun _ _ _ => rfl

theorem accept (kind : Token.Kind) : IgnoresLimit (accept kind) :=
  .bind .peek fun _ => .ite (.bind .advance fun _ => .same true) (.same false)

theorem expect (kind : Token.Kind) (expected : Expected) : IgnoresLimit (expect kind expected) :=
  .bind (.accept kind) fun _ => .ite (.same ()) (.fail expected)

theorem target : IgnoresLimit target := by
  apply IgnoresLimit.bind .peek
  intro kind
  cases kind with
  | path path =>
      dsimp only
      split
      · exact .ite (.same _) (.fail _)
      · exact .fail _
  | _ => exact .fail _

theorem emptyParens : IgnoresLimit emptyParens :=
  .bind (.accept _) fun _ => .ite (.expect _ _) (.same ())

theorem checkArity (offset : Nat) (function : MathFunction) (arguments : List Expr) :
    IgnoresLimit (checkArity offset function arguments) :=
  .ite (.same _) (.failAt _ _ _)

theorem reference (start : Nat) (path : String) : IgnoresLimit (reference start path) := by
  rw [Parser.reference]
  cases scopedName? path with
  | none => exact .failAt _ _ _
  | some found => exact .bind .emptyParens fun _ => .same _

end IgnoresLimit

/-- A relation between parsers that is kept by putting parsers together.  What gives no answer is
related to everything. -/
structure Congruence where
  Relates {α : Type} : Parser α → Parser α → Prop
  exhausted {α : Type} (parser : Parser α) : Relates exhausted parser
  ignoring {α : Type} {parser : Parser α} : IgnoresLimit parser → Relates parser parser
  enter : Relates enter enter
  leaving {α : Type} {left right : Parser α} :
    Relates left right → Relates (leaving left) (leaving right)
  bind {α β : Type} {left right : Parser α} {leftNext rightNext : α → Parser β} :
    Relates left right → (∀ value, Relates (leftNext value) (rightNext value)) →
      Relates (left >>= leftNext) (right >>= rightNext)

namespace Congruence

variable (relation : Congruence)

/-- Behind what does not look at the limit the two parsers go on with the same value. -/
theorem after {first : Parser α} {leftNext rightNext : α → Parser β}
    (hfirst : IgnoresLimit first)
    (hnext : ∀ value, relation.Relates (leftNext value) (rightNext value)) :
    relation.Relates (first >>= leftNext) (first >>= rightNext) :=
  relation.bind (relation.ignoring hfirst) hnext

theorem afterEnter {leftNext rightNext : Unit → Parser β}
    (hnext : relation.Relates (leftNext ()) (rightNext ())) :
    relation.Relates (Parser.enter >>= leftNext) (Parser.enter >>= rightNext) :=
  relation.bind relation.enter fun _ => hnext

theorem same (value : α) : relation.Relates (pure value) (pure value) :=
  relation.ignoring (.same value)

/-! ### Loops -/

section Loops

variable {leftStep rightStep : α → Parser (Option α)}
variable (hstep : ∀ value, relation.Relates (leftStep value) (rightStep value))
include hstep

/-- Loops whose steps are related are related, round by round. -/
theorem iterate (rounds : Nat) (value : α) :
    relation.Relates (iterate leftStep rounds value) (Parser.iterate rightStep rounds value) := by
  induction rounds generalizing value with
  | zero => exact relation.same value
  | succ rounds ih =>
      apply relation.bind (hstep value)
      intro next
      cases next with
      | none => exact relation.same value
      | some next => exact ih next

theorem repeatStep (value : α) :
    relation.Relates (repeatStep leftStep value) (Parser.repeatStep rightStep value) := by
  -- A loop counts the tokens that are left and then makes as many rounds.
  let count : Parser Nat := fun _ state => .done state.tokens.length state
  have hcount : IgnoresLimit count := fun _ _ _ => rfl
  exact relation.after hcount fun rounds => relation.iterate hstep rounds value

theorem chained {leftFirst rightFirst : Parser α} (hfirst : relation.Relates leftFirst rightFirst) :
    relation.Relates (chained leftFirst leftStep) (Parser.chained rightFirst rightStep) := by
  apply relation.bind hfirst
  intro value
  apply relation.after .depth
  intro base
  apply relation.bind (relation.repeatStep hstep value)
  intro result
  exact relation.ignoring (.bind (.setDepth base) fun _ => .same result)

end Loops

/-! ### The pieces of the grammar -/

section Pieces

variable {left right : Parser Expr} (hpart : relation.Relates left right)
include hpart

/-- The two branches of a conditional are related if the branch parsers are. -/
theorem conditionalStep (condition : Expr) :
    relation.Relates (conditionalStep left condition) (Parser.conditionalStep right condition) := by
  apply relation.after (.accept (.symbol .question))
  intro found
  cases found with
  | false => exact relation.same none
  | true =>
      apply relation.afterEnter
      apply relation.bind hpart
      intro whenTrue
      apply relation.after (.expect (.symbol .colon) .colon)
      intro _
      exact relation.bind hpart fun whenFalse => relation.same _

/-- A step of a chain is related if its operands are. -/
theorem operatorStep (level : Level) (e : Expr) :
    relation.Relates (operatorStep level left e) (Parser.operatorStep level right e) := by
  apply relation.after .peek
  intro kind
  cases level.operator? kind with
  | none => exact relation.same none
  | some operator =>
      apply relation.after .advance
      intro _
      apply relation.afterEnter
      exact relation.bind hpart fun right => relation.same _

theorem signed (operator : UnaryOp) :
    relation.Relates (signed operator left) (Parser.signed operator right) := by
  apply relation.after .advance
  intro _
  apply relation.afterEnter
  exact relation.bind (relation.leaving hpart) fun operand => relation.same _

theorem argumentStep (es : List Expr) :
    relation.Relates (argumentStep left es) (Parser.argumentStep right es) := by
  apply relation.after (.accept (.symbol .comma))
  intro found
  cases found with
  | false => exact relation.same none
  | true => exact relation.bind hpart fun e => relation.same _

/-- A separator is read on both sides, or on neither. -/
theorem statementStep (es : List Expr) :
    relation.Relates (statementStep left es) (Parser.statementStep right es) := by
  apply relation.after .peek
  intro kind
  cases isSeparator kind with
  | false => exact relation.same none
  | true =>
      apply relation.after .advance
      intro _
      apply relation.after .peek
      intro next
      split
      · exact relation.same none
      · exact relation.bind hpart fun e => relation.same _

end Pieces

theorem call {left right : Parser (List Expr)} (harguments : relation.Relates left right)
    (start : Nat) (path name : String) :
    relation.Relates (call start path name left) (Parser.call start path name right) := by
  rw [Parser.call, Parser.call]
  cases MathFunction.ofName? name with
  | none => exact relation.ignoring (.failAt _ _ _)
  | some function =>
      apply relation.after (.accept (.symbol .leftParen))
      intro found
      cases found with
      | true =>
          apply relation.bind harguments
          exact fun arguments => relation.ignoring (.checkArity start function arguments)
      | false =>
          rw [if_neg Bool.false_ne_true, if_neg Bool.false_ne_true]
          exact relation.ignoring (.ite (.checkArity start function []) (.fail _))

/-! ### The functions of the grammar -/

/-- What is called with a budget is related to the same call with a larger one. -/
structure Holds (budget larger : Nat) : Prop where
  statement : relation.Relates (statement budget) (statement larger)
  assignment : relation.Relates (assignment budget) (assignment larger)
  ternary : relation.Relates (ternary budget) (ternary larger)
  chain : ∀ level, relation.Relates (chain level budget) (chain level larger)
  fold : ∀ level, relation.Relates (fold level budget) (fold level larger)
  unary : relation.Relates (unary budget) (unary larger)
  primary : relation.Relates (primary budget) (primary larger)
  named : ∀ start path, relation.Relates (named start path budget) (named start path larger)
  arguments : relation.Relates (arguments budget) (arguments larger)

namespace Holds

variable {relation}

theorem zero (larger : Nat) : relation.Holds 0 larger where
  statement := relation.exhausted _
  assignment := relation.exhausted _
  ternary := relation.exhausted _
  chain _ := relation.exhausted _
  fold _ := relation.exhausted _
  unary := relation.exhausted _
  primary := relation.exhausted _
  named _ _ := relation.exhausted _
  arguments := relation.exhausted _

variable {budget larger : Nat} (holds : relation.Holds budget larger)
include holds

theorem statement_succ :
    relation.Relates (Parser.statement (budget + 1)) (Parser.statement (larger + 1)) :=
  relation.afterEnter (relation.leaving holds.assignment)

theorem assignment_succ :
    relation.Relates (Parser.assignment (budget + 1)) (Parser.assignment (larger + 1)) := by
  apply relation.after .peekSecond
  intro kind
  cases assignment? kind with
  | none => exact holds.ternary
  | some operator =>
      apply relation.after .target
      intro written
      apply relation.after .advance
      intro _
      apply relation.after .advance
      intro _
      exact relation.bind holds.statement fun value => relation.same _

theorem operand (level : Level) :
    relation.Relates (operand level budget) (Parser.operand level larger) := by
  cases level with
  | factor => exact holds.unary
  | _ => exact holds.chain _

theorem fold_succ (level : Level) :
    relation.Relates (Parser.fold level (budget + 1)) (Parser.fold level (larger + 1)) :=
  relation.chained (relation.operatorStep (holds.operand level) level) (holds.operand level)

theorem unary_succ :
    relation.Relates (Parser.unary (budget + 1)) (Parser.unary (larger + 1)) := by
  apply relation.after .peek
  intro kind
  cases kind with
  | symbol symbol =>
      cases symbol with
      | minus => exact relation.signed holds.unary .neg
      | bang => exact relation.signed holds.unary .not
      | plus => exact relation.after .advance fun _ => holds.unary
      | _ => exact holds.primary
  | _ => exact holds.primary

theorem primary_succ :
    relation.Relates (Parser.primary (budget + 1)) (Parser.primary (larger + 1)) := by
  apply relation.after .peek
  intro kind
  cases kind with
  | symbol symbol =>
      cases symbol with
      | leftParen =>
          apply relation.after .advance
          intro _
          apply relation.bind holds.statement
          intro e
          exact relation.ignoring (.bind (.expect _ _) fun _ => .same e)
      | _ => exact relation.ignoring (.fail _)
  | path path =>
      apply relation.after .offset
      intro start
      apply relation.after .advance
      intro _
      exact holds.named start path
  | number value => exact relation.ignoring (.bind .advance fun _ => .same _)
  | _ => exact relation.ignoring (.fail _)

theorem named_succ (start : Nat) (path : String) :
    relation.Relates (Parser.named start path (budget + 1))
      (Parser.named start path (larger + 1)) := by
  rw [Parser.named, Parser.named]
  cases functionName? path with
  | none => exact relation.ignoring (.reference start path)
  | some name => exact relation.call holds.arguments start path name

theorem arguments_succ :
    relation.Relates (Parser.arguments (budget + 1)) (Parser.arguments (larger + 1)) := by
  rw [Parser.arguments, Parser.arguments]
  apply relation.after (.accept (.symbol .rightParen))
  intro found
  cases found with
  | true => exact relation.same []
  | false =>
      apply relation.bind holds.statement
      intro first
      apply relation.bind (relation.repeatStep (relation.argumentStep holds.statement) [first])
      intro es
      exact relation.ignoring (.bind (.expect _ _) fun _ => .same es)

theorem succ : relation.Holds (budget + 1) (larger + 1) where
  statement := holds.statement_succ
  assignment := holds.assignment_succ
  ternary := relation.chained (relation.conditionalStep (holds.chain .or)) (holds.chain .or)
  chain := holds.fold
  fold := holds.fold_succ
  unary := holds.unary_succ
  primary := holds.primary_succ
  named := holds.named_succ
  arguments := holds.arguments_succ

end Holds

/-- The relation holds between every budget and a larger one, as it does where there is none. -/
theorem holds {budget larger : Nat} (hlarger : budget ≤ larger) :
    relation.Holds budget larger := by
  induction budget generalizing larger with
  | zero => exact .zero larger
  | succ budget ih =>
      obtain ⟨larger, rfl⟩ : ∃ before, larger = before + 1 := ⟨larger - 1, by omega⟩
      exact (ih (Nat.le_of_succ_le_succ hlarger)).succ

/-- A program is related to itself with a larger budget. -/
theorem program {budget larger : Nat} (hlarger : budget ≤ larger) :
    relation.Relates (program budget) (Parser.program larger) := by
  have hholds := relation.holds hlarger
  rw [Parser.program, Parser.program]
  apply relation.bind hholds.statement
  intro first
  apply relation.bind (relation.repeatStep (relation.statementStep hholds.statement) [first])
  intro es
  apply relation.after (.expect .endOfInput .endOfInput)
  intro _
  split <;> exact relation.same _

end Congruence

end MotionScript.Parser
