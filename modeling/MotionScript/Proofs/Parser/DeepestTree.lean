import MotionScript.Proofs.Expr.RoundTrip
import MotionScript.Proofs.Parser.Nesting
/-!
# The bound on the nesting of trees is attained

A call with as many steps of each tier of operators behind it as there are levels left, and such a
call again as its argument one level further in, has a way down that is as long as the limit allows.
-/

namespace MotionScript

namespace Parser

variable {setup : Setup} {input rest : List Token.Kind} {depth : Nat} {e : Expr}

/-! ### Steps of one tier -/

/-- Steps with an operator and a one, in front of the rest of an input. -/
def operatorSteps (symbol : Symbol) : Nat → List Token.Kind → List Token.Kind
  | 0, rest => rest
  | count + 1, rest => operatorSteps symbol count (.symbol symbol :: .number 1 :: rest)

/-- What the steps make of an operand. -/
def operatorChain (operator : BinaryOp) : Nat → Expr → Expr
  | 0, e => e
  | count + 1, e => .binary operator (operatorChain operator count e) (.constant 1)

/-- Steps with a question and two ones, in front of the rest of an input. -/
def conditionalSteps : Nat → List Token.Kind → List Token.Kind
  | 0, rest => rest
  | count + 1, rest =>
    conditionalSteps count
      (.symbol .question :: .number 1 :: .symbol .colon :: .number 1 :: rest)

/-- What the steps make of a condition. -/
def conditionalChain : Nat → Expr → Expr
  | 0, e => e
  | count + 1, e => .conditional (conditionalChain count e) (.constant 1) (.constant 1)

theorem height_operatorChain (operator : BinaryOp) (count : Nat) (e : Expr) :
    (operatorChain operator count e).height = e.height + count := by
  induction count with
  | zero => rfl
  | succ count ih =>
      simp only [operatorChain, Expr.height, ih]
      omega

theorem height_conditionalChain (count : Nat) (e : Expr) :
    (conditionalChain count e).height = e.height + count := by
  induction count with
  | zero => rfl
  | succ count ih =>
      simp only [conditionalChain, Expr.height, ih]
      omega

/-- The next token binds no more tightly than the steps, if there are any, and the rest. -/
theorem tightness_operatorSteps_le {symbol : Symbol} {bound : Nat}
    (hsymbol : (Token.Kind.symbol symbol).tightness ≤ bound)
    (hfollow : (nextKind rest).tightness ≤ bound) (count : Nat) :
    (nextKind (operatorSteps symbol count rest)).tightness ≤ bound := by
  induction count generalizing rest with
  | zero => exact hfollow
  | succ count ih => exact ih hsymbol

theorem tightness_conditionalSteps_le (hfollow : (nextKind rest).tightness = 0) (count : Nat) :
    (nextKind (conditionalSteps count rest)).tightness ≤ 1 := by
  have hsteps : ∀ {rest : List Token.Kind}, (nextKind rest).tightness ≤ 1 →
      (nextKind (conditionalSteps count rest)).tightness ≤ 1 := by
    induction count with
    | zero => exact fun hfollow => hfollow
    | succ count ih => exact fun _ => ih (Nat.le_refl 1)
  exact hsteps (by omega)

theorem reads_one (budget : Nat) :
    Reads (unary budget) setup ⟨.number 1 :: rest, depth⟩ (.constant 1) ⟨rest, depth⟩ :=
  .unary_primary (Or.inl ⟨1, rfl⟩) .primary_number budget

/-- The loop of a level takes one step for each operator, with one more level of depth each time. -/
theorem repeats_operatorSteps {tier : Level} {symbol : Symbol} {operator : BinaryOp} {count : Nat}
    (hoperator : tier.operator? (.symbol symbol) = some operator)
    (hdepth : depth + count ≤ setup.limit) (hfollow : (nextKind rest).tightness ≤ tier.tightness)
    (budget : Nat) :
    Repeats (operatorStep tier (operand tier budget)) setup e
      ⟨operatorSteps symbol count rest, depth⟩ (operatorChain operator count e)
      ⟨rest, depth + count⟩ := by
  induction count generalizing rest with
  | zero => exact .refl
  | succ count ih =>
      have hlevel : depth + count < setup.limit := by omega
      have htightness :
          (nextKind (.symbol symbol :: .number 1 :: rest)).tightness ≤ tier.tightness :=
        Nat.le_of_eq (Level.tightness_of_operator? hoperator)
      have hright : Reads (operand tier budget) setup ⟨.number 1 :: rest, depth + count + 1⟩
          (.constant 1) ⟨rest, depth + count + 1⟩ := .operand_of_unary tier reads_one hfollow budget
      exact .binary hoperator (ih (Nat.le_of_lt hlevel) htightness) hlevel hright (Nat.le_succ _)

/-- The loop of the conditional takes one step for each question mark. -/
theorem repeats_conditionalSteps {count : Nat} (hdepth : depth + count ≤ setup.limit)
    (hfollow : (nextKind rest).tightness ≤ 1) (budget : Nat) :
    Repeats (conditionalStep (chain .or budget)) setup e ⟨conditionalSteps count rest, depth⟩
      (conditionalChain count e) ⟨rest, depth + count⟩ := by
  induction count generalizing rest with
  | zero => exact .refl
  | succ count ih =>
      have hlevel : depth + count < setup.limit := by omega
      have hbranch {rest : List Token.Kind} (hfollow : (nextKind rest).tightness < 2) :
          Reads (chain .or budget) setup ⟨.number 1 :: rest, depth + count + 1⟩ (.constant 1)
            ⟨rest, depth + count + 1⟩ := .chain_of_unary .or reads_one hfollow budget
      have hshorter : rest.length ≤ (.number 1 :: .symbol .colon :: .number 1 :: rest).length := by
        simp only [List.length_cons]
        omega
      exact .conditional (ih (Nat.le_of_lt hlevel) (Nat.le_refl 1)) hlevel (hbranch Nat.two_pos)
        (hbranch (Nat.lt_succ_of_le hfollow)) hshorter

/-- Steps of a tier behind one of its operands make a chain of it. -/
theorem Reads.chain_operatorSteps {tier : Level} {symbol : Symbol} {operator : BinaryOp}
    {count : Nat} (hoperator : tier.operator? (.symbol symbol) = some operator)
    (hdepth : depth + count ≤ setup.limit) (hfollow : (nextKind rest).tightness < tier.tightness)
    (hoperand : ∀ budget, Reads (operand tier budget) setup ⟨input, depth⟩ e
      ⟨operatorSteps symbol count rest, depth⟩) :
    ∀ budget, Reads (Parser.chain tier budget) setup ⟨input, depth⟩ (operatorChain operator count e)
      ⟨rest, depth⟩ :=
  .chain hoperand (repeats_operatorSteps hoperator hdepth (Nat.le_of_lt hfollow))
    (Level.operator?_of_tightness hfollow)

/-! ### Steps of all tiers -/

def allSteps (count : Nat) (rest : List Token.Kind) : List Token.Kind :=
  operatorSteps .star count <| operatorSteps .plus count <| operatorSteps .less count <|
    operatorSteps .equal count <| operatorSteps .bothTrue count <|
    operatorSteps .eitherTrue count <| conditionalSteps count rest

def allChains (count : Nat) (e : Expr) : Expr :=
  conditionalChain count <| operatorChain .or count <| operatorChain .and count <|
    operatorChain .eq count <| operatorChain .lt count <| operatorChain .add count <|
    operatorChain .mul count e

theorem height_allChains (count : Nat) (e : Expr) :
    (allChains count e).height = e.height + 7 * count := by
  simp only [allChains, height_conditionalChain, height_operatorChain]
  omega

/-- Behind one operand, the steps of all levels are read from the tightest to the loosest. -/
theorem Reads.ternary_allSteps {count : Nat} (hdepth : depth + count ≤ setup.limit)
    (hfollow : (nextKind rest).tightness = 0)
    (hunary : ∀ budget, Reads (unary budget) setup ⟨input, depth⟩ e ⟨allSteps count rest, depth⟩) :
    ∀ budget, Reads (Parser.ternary budget) setup ⟨input, depth⟩ (allChains count e)
      ⟨rest, depth⟩ := by
  have htop := tightness_conditionalSteps_le hfollow count
  have hor : (nextKind (operatorSteps .eitherTrue count _)).tightness ≤ 2 :=
    tightness_operatorSteps_le (Nat.le_refl 2) (Nat.le_succ_of_le htop) count
  have hand : (nextKind (operatorSteps .bothTrue count _)).tightness ≤ 3 :=
    tightness_operatorSteps_le (Nat.le_refl 3) (Nat.le_succ_of_le hor) count
  have hequality : (nextKind (operatorSteps .equal count _)).tightness ≤ 4 :=
    tightness_operatorSteps_le (Nat.le_refl 4) (Nat.le_succ_of_le hand) count
  have hcomparison : (nextKind (operatorSteps .less count _)).tightness ≤ 5 :=
    tightness_operatorSteps_le (Nat.le_refl 5) (Nat.le_succ_of_le hequality) count
  have hterm : (nextKind (operatorSteps .plus count _)).tightness ≤ 6 :=
    tightness_operatorSteps_le (Nat.le_refl 6) (Nat.le_succ_of_le hcomparison) count
  -- From the tightest tier to the loosest, what one reads is an operand of the next.
  have hfactors : ∀ budget,
      Reads (Parser.chain .factor budget) setup _ (operatorChain .mul count e) _ :=
    .chain_operatorSteps (by rfl) hdepth (Nat.lt_succ_of_le hterm) hunary
  have hterms : ∀ budget,
      Reads (Parser.chain .term budget) setup _ (operatorChain .add count _) _ :=
    .chain_operatorSteps (by rfl) hdepth (Nat.lt_succ_of_le hcomparison) hfactors
  have hcomparisons : ∀ budget,
      Reads (Parser.chain .comparison budget) setup _ (operatorChain .lt count _) _ :=
    .chain_operatorSteps (by rfl) hdepth (Nat.lt_succ_of_le hequality) hterms
  have hequalities : ∀ budget,
      Reads (Parser.chain .equality budget) setup _ (operatorChain .eq count _) _ :=
    .chain_operatorSteps (by rfl) hdepth (Nat.lt_succ_of_le hand) hcomparisons
  have hands : ∀ budget, Reads (Parser.chain .and budget) setup _ (operatorChain .and count _) _ :=
    .chain_operatorSteps (by rfl) hdepth (Nat.lt_succ_of_le hor) hequalities
  have hors : ∀ budget, Reads (Parser.chain .or budget) setup _ (operatorChain .or count _) _ :=
    .chain_operatorSteps (by rfl) hdepth (Nat.lt_succ_of_le htop) hands
  have hstop : nextKind rest ≠ .symbol .question := by
    intro hquestion
    rw [hquestion] at hfollow
    cases hfollow
  exact .ternary hors (repeats_conditionalSteps hdepth (by omega)) hstop

/-! ### Trees as deep as the limit allows -/

/-- An input that takes one level more than the number, in front of the rest. -/
def deepestInput : Nat → List Token.Kind → List Token.Kind
  | 0, rest => .number 1 :: rest
  | levels + 1, rest =>
    .path "math.abs" :: .symbol .leftParen ::
      deepestInput levels (.symbol .rightParen :: allSteps (levels + 1) rest)

def deepestTree : Nat → Expr
  | 0 => .constant 1
  | levels + 1 => allChains (levels + 1) (.call .abs [deepestTree levels])

/-- The tree is as high as the bound on all trees says, so the bound is met. -/
theorem height_deepestTree (levels : Nat) :
    (deepestTree levels).height + 1 = deepest (levels + 1) := by
  induction levels with
  | zero => rfl
  | succ levels ih =>
      rw [deepest, ← ih, deepestTree, height_allChains]
      simp only [Expr.height, Expr.heightAbove]
      omega

/-- The input is accepted as the deepest tree that its levels allow. -/
theorem statement_deepestInput {levels : Nat} (hdepth : depth + levels < setup.limit)
    (hfollow : (nextKind rest).tightness = 0) (budget : Nat) :
    Reads (statement budget) setup ⟨deepestInput levels rest, depth⟩ (deepestTree levels)
      ⟨rest, depth⟩ := by
  induction levels generalizing depth rest budget with
  | zero =>
      have hone : ReadsStatement setup [.number 1] 1 (.constant 1) := ReadsOperand.number.statement
      exact hone.reads depth rest hdepth hfollow budget
  | succ levels ih =>
      have hopen :
          nextKind (deepestInput levels (.symbol .rightParen :: allSteps (levels + 1) rest)) ≠
            .symbol .rightParen := by
        cases levels <;> rintro ⟨⟩
      have hargument : ∀ budget, Reads (statement budget) setup
          ⟨deepestInput levels (.symbol .rightParen :: allSteps (levels + 1) rest), depth + 1⟩
          (deepestTree levels) ⟨.symbol .rightParen :: allSteps (levels + 1) rest, depth + 1⟩ :=
        ih (by omega) rfl
      have hcall : ∀ budget, Reads (unary budget) setup
          ⟨deepestInput (levels + 1) rest, depth + 1⟩ (.call .abs [deepestTree levels])
          ⟨allSteps (levels + 1) rest, depth + 1⟩ :=
        .unary_primary (Or.inr (Or.inl ⟨_, rfl⟩))
          (.primary_call (Or.inl rfl) rfl (.arguments_some hopen hargument fun _ => .refl))
      exact .statement_ternary (by omega) rfl (.ternary_allSteps (by omega) hfollow hcall) budget

/-- Two statements, the first of which is as deep as the limit allows. -/
theorem program_deepestInput {levels : Nat} (hlimit : levels < setup.limit) (budget : Nat) :
    Reads (program budget) setup
      ⟨deepestInput levels [.symbol .semicolon, .number 1, .endOfInput], 0⟩
      (.sequence [deepestTree levels, .constant 1]) ⟨[], 0⟩ := by
  have hlevel : 0 + levels < setup.limit := by omega
  have hfirst : Reads (statement budget) setup
      ⟨deepestInput levels [.symbol .semicolon, .number 1, .endOfInput], 0⟩ (deepestTree levels)
      ⟨[.symbol .semicolon, .number 1, .endOfInput], 0⟩ :=
    statement_deepestInput hlevel rfl budget
  have hone : ReadsStatement setup [.number 1] 1 (.constant 1) := ReadsOperand.number.statement
  have hsecond : Reads (statement budget) setup ⟨[.number 1, .endOfInput], 0⟩ (.constant 1)
      ⟨[.endOfInput], 0⟩ := hone.reads 0 [.endOfInput] (by omega) rfl budget
  have hrepeats : Repeats (statementStep (statement budget)) setup [deepestTree levels]
      ⟨[.symbol .semicolon, .number 1, .endOfInput], 0⟩ [deepestTree levels, .constant 1]
      ⟨[.endOfInput], 0⟩ :=
    Repeats.refl.again (.statementStep (by decide) number_ne_end hsecond) (by decide)
  exact Grammar.Ending.plain.reads_program hfirst hrepeats (Or.inr ⟨Nat.lt_succ_self 1, rfl⟩)

end Parser

open MotionScript.Parser

/-- Under every limit but zero, a stream of tokens is accepted as a tree with a way down that has as
many nodes as the limit allows. -/
theorem Expr.exists_ofTokens_deepest {limit : Nat} (hlimit : 1 ≤ limit) :
    ∃ tokens e path, Expr.ofTokens limit tokens = .ok e ∧ e.IsPath path ∧
      path.length = 7 * (limit * (limit - 1) / 2) + limit + 1 := by
  obtain ⟨levels, rfl⟩ := Nat.exists_eq_add_of_le' hlimit
  let input := deepestInput levels [.symbol .semicolon, .number 1, .endOfInput]
  have hkinds : (input.map fun kind => (⟨kind, 0, 0⟩ : Token)).map Token.kind = input := by
    simp [Function.comp_def]
  have hparsed : Expr.ofTokens (levels + 1) (input.map fun kind => ⟨kind, 0, 0⟩) =
      .ok (.sequence [deepestTree levels, .constant 1]) := by
    apply Expr.ofTokens_of_reads
    intro lastOffset budget
    rw [hkinds]
    exact program_deepestInput (Nat.lt_succ_self levels) budget
  obtain ⟨path, hpath, hlength⟩ :=
    (Expr.sequence [deepestTree levels, .constant 1]).exists_path_of_height
  refine ⟨_, _, path, hparsed, hpath, ?_⟩
  rw [hlength, ← deepest_eq, ← height_deepestTree]
  simp only [Expr.height, Expr.heightAbove]
  omega

end MotionScript
