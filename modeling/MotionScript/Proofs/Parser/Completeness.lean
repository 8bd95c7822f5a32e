import MotionScript.Proofs.Parser.Productions
import MotionScript.Proofs.Parser.Extent
/-!
# What the grammar derives is read

The parser takes as many tokens as it can, so a derivation is only read where the token behind it
goes on with nothing.  How tightly a token binds to what stands before it says which levels it goes
on with, and turns this condition into a comparison of numbers that each production hands on to its
parts.  No nesting is too deep, because each level of it has taken a token of its own.
-/

namespace MotionScript

open MotionScript.Parser

/-- How tightly a token binds to an expression before it; zero if it does not go on with one. -/
def Token.Kind.tightness : Token.Kind → Nat
  | .symbol .question => 1
  | .symbol .eitherTrue => 2
  | .symbol .bothTrue => 3
  | .symbol .equal | .symbol .notEqual => 4
  | .symbol .less | .symbol .lessEqual | .symbol .greater | .symbol .greaterEqual => 5
  | .symbol .plus | .symbol .minus => 6
  | .symbol .star | .symbol .slash | .symbol .percent => 7
  | .symbol .leftParen => 8
  | .symbol .assign | .symbol .plusAssign | .symbol .minusAssign | .symbol .starAssign
  | .symbol .slashAssign => 8
  | _ => 0

/-- How tightly the operators of a level bind. -/
def Parser.Level.tightness : Level → Nat
  | .or => 2
  | .and => 3
  | .equality => 4
  | .comparison => 5
  | .term => 6
  | .factor => 7

theorem Parser.Level.tightness_tighter {tier tighter : Level}
    (htighter : tier.tighter = some tighter) :
    tighter.tightness = tier.tightness + 1 := by
  cases tier <;> cases htighter <;> rfl

theorem Parser.Level.tightness_of_operator? {tier : Level} {kind : Token.Kind} {operator : BinaryOp}
    (hoperator : tier.operator? kind = some operator) : kind.tightness = tier.tightness := by
  simp only [Level.operator?] at hoperator
  split at hoperator <;> first | rfl | cases hoperator

/-- A token that binds less tightly than a level is no operator of it. -/
theorem Parser.Level.operator?_of_tightness {tier : Level} {kind : Token.Kind}
    (hkind : kind.tightness < tier.tightness) : tier.operator? kind = none := by
  apply Option.eq_none_iff_forall_ne_some.2
  intro operator hoperator
  rw [Level.tightness_of_operator? hoperator] at hkind
  exact Nat.lt_irrefl _ hkind

theorem Parser.assignment?_of_tightness {kind : Token.Kind} (hkind : kind.tightness = 0) :
    assignment? kind = none := by
  simp only [assignment?]
  split <;> first | rfl | cases hkind

namespace Grammar

variable {setup : Setup}

/-! ### Unfinished chains -/

/-- From the input a loop has been started, which has come to the expression and the rest. -/
def Accumulates (first : Nat → Parser Expr) (step : Nat → Expr → Parser (Option Expr))
    (setup : Setup) (input : Input) (depth : Nat) (e : Expr) (rest : Input) : Prop :=
  ∃ start between level,
    (∀ budget, Reads (first budget) setup ⟨input, depth⟩ start ⟨between, depth⟩) ∧
    (∀ budget, Repeats (step budget) setup start ⟨between, depth⟩ e ⟨rest, level⟩) ∧
    level + rest.length ≤ depth + input.length

theorem Accumulates.of_reads {first : Nat → Parser Expr} {step : Nat → Expr → Parser (Option Expr)}
    {input rest : Input} {depth : Nat} {e : Expr}
    (hreads : ∀ budget, Reads (first budget) setup ⟨input, depth⟩ e ⟨rest, depth⟩)
    (hspans : Spans input rest) : Accumulates first step setup input depth e rest :=
  ⟨e, rest, depth, hreads, fun _ => .refl, Nat.add_le_add_left (Nat.le_of_lt hspans.length_lt) _⟩

theorem Accumulates.chain {tier : Level} {input rest : Input} {depth : Nat} {e : Expr}
    (haccumulates : Accumulates (operand tier)
      (fun budget => operatorStep tier (operand tier budget)) setup input depth e rest)
    (hfollow : (nextKind rest).tightness < tier.tightness) (budget : Nat) :
    Reads (chain tier budget) setup ⟨input, depth⟩ e ⟨rest, depth⟩ := by
  obtain ⟨start, between, level, hstart, hrepeats, _⟩ := haccumulates
  exact .chain hstart hrepeats (Level.operator?_of_tightness hfollow) budget

theorem Accumulates.ternary {input rest : Input} {depth : Nat} {e : Expr}
    (haccumulates : Accumulates (Parser.chain .or)
      (fun budget => conditionalStep (Parser.chain .or budget)) setup input depth e rest)
    (hfollow : (nextKind rest).tightness = 0) (budget : Nat) :
    Reads (Parser.ternary budget) setup ⟨input, depth⟩ e ⟨rest, depth⟩ := by
  obtain ⟨start, between, level, hstart, hrepeats, _⟩ := haccumulates
  refine .ternary hstart hrepeats (fun hquestion => ?_) budget
  rw [hquestion] at hfollow
  cases hfollow

theorem assignment?_second {input rest : Input} (hspans : SpansPlainly input rest)
    (hfollow : (nextKind rest).tightness = 0) : assignment? (nextKind input.tail) = none := by
  obtain ⟨first, taken, rfl, _, hsecond, _⟩ := hspans
  cases taken with
  | nil => exact assignment?_of_tightness hfollow
  | cons second taken => exact hsecond

/-- A primary expression starts with a number, a path or a parenthesis. -/
theorem Primary.starts {e : Expr} {input rest : Input} (hprimary : Primary input e rest) :
    (∃ value, nextKind input = .number value) ∨ (∃ path, nextKind input = .path path) ∨
      nextKind input = .symbol .leftParen := by
  cases hprimary with
  | number => exact Or.inl ⟨_, rfl⟩
  | parentheses _ => exact Or.inr (Or.inr rfl)
  | _ => exact Or.inr (Or.inl ⟨_, rfl⟩)

/-- A step that reads a separator and appends the statement behind it. -/
def Appends (separators : List Symbol) (setup : Setup) (budget : Nat)
    (step : List Expr → Parser (Option (List Expr))) : Prop :=
  ∀ {symbol e es input rest depth}, symbol ∈ separators → nextKind input ≠ .endOfInput →
    Reads (statement budget) setup ⟨input, depth⟩ e ⟨rest, depth⟩ →
    Reads (step es) setup ⟨.symbol symbol :: input, depth⟩ (some (es ++ [e])) ⟨rest, depth⟩

theorem appends_argumentStep {budget : Nat} :
    Appends [.comma] setup budget (argumentStep (statement budget)) := by
  intro symbol e es input rest depth hsymbol _ hstatement
  cases List.mem_singleton.1 hsymbol
  exact .argumentStep hstatement

theorem appends_statementStep {budget : Nat} :
    Appends [.semicolon, .comma] setup budget (statementStep (statement budget)) :=
  Reads.statementStep

theorem ne_leftParen_of_tightness {kind : Token.Kind} (hkind : kind.tightness ≤ 7) :
    kind ≠ .symbol .leftParen := by
  rintro rfl
  exact absurd hkind (by decide)

/-! ### Derivations are read -/

mutual

theorem Statement.reads {e : Expr} {input rest : Input} :
    Statement input e rest → ∀ depth, depth + input.length < setup.limit →
      (nextKind rest).tightness = 0 →
      ∀ budget, Reads (statement budget) setup ⟨input, depth⟩ e ⟨rest, depth⟩
  | .assign hpath hwritable hsymbol hvalue => by
    intro depth hdepth hfollow
    rw [List.length_cons, List.length_cons] at hdepth
    exact .statement_assign (by omega) hpath hwritable hsymbol
      (hvalue.reads _ (by omega) hfollow)
  | .ternary hternary => by
    intro depth hdepth hfollow
    refine .statement_ternary (by omega) (assignment?_second hternary.spans hfollow) ?_
    exact (hternary.accumulates _ (by omega) (by omega)).ternary hfollow

/-- The loop of the conditional reads every conditional chain. -/
theorem Ternary.accumulates {e : Expr} {input rest : Input} :
    Ternary input e rest → ∀ depth, depth + input.length ≤ setup.limit →
      (nextKind rest).tightness ≤ 1 →
      Accumulates (Parser.chain .or) (fun budget => conditionalStep (Parser.chain .or budget))
        setup input depth e rest
  | .chain hchain => by
    intro depth hdepth hfollow
    refine .of_reads ?_ hchain.spans.spans
    have haccumulates := hchain.accumulates _ hdepth (Nat.le_succ_of_le hfollow)
    exact haccumulates.chain (Nat.lt_succ_of_le hfollow)
  | .conditional hcondition hwhenTrue hwhenFalse => by
    intro depth hdepth hfollow
    obtain ⟨start, between, level, hstart, hrepeats, hlength⟩ :=
      hcondition.accumulates _ hdepth (Nat.le_refl 1)
    have hfirst := hwhenTrue.spans.spans.length_lt
    have hsecond := hwhenFalse.spans.spans.length_lt
    simp only [List.length_cons] at hlength hfirst
    have hreadsTrue : ∀ budget, Reads (Parser.chain .or budget) setup _ _ _ :=
      (hwhenTrue.accumulates (level + 1) (by omega) (Nat.zero_le 2)).chain Nat.two_pos
    have hreadsFalse : ∀ budget, Reads (Parser.chain .or budget) setup _ _ _ :=
      (hwhenFalse.accumulates (level + 1) (by omega) (Nat.le_succ_of_le hfollow)).chain
        (Nat.lt_succ_of_le hfollow)
    refine ⟨start, between, level + 1, hstart, fun budget => ?_, by omega⟩
    exact .conditional (hrepeats budget) (by omega) (hreadsTrue budget) (hreadsFalse budget)
      (by omega)

/-- The loop of a level reads every chain of its operators. -/
theorem Chain.accumulates {tier : Level} {e : Expr} {input rest : Input} :
    Chain tier input e rest → ∀ depth, depth + input.length ≤ setup.limit →
      (nextKind rest).tightness ≤ tier.tightness →
      Accumulates (operand tier) (fun budget => operatorStep tier (operand tier budget))
        setup input depth e rest
  | .operand hoperand => by
    intro depth hdepth hfollow
    exact .of_reads (hoperand.reads _ hdepth hfollow) hoperand.spans.spans
  | .binary hoperator hsymbol hleft hright => by
    intro depth hdepth hfollow
    have hlevel := Level.operator?_eq_some_iff.2 ⟨_, rfl, hoperator, hsymbol⟩
    obtain ⟨start, between, level, hstart, hrepeats, hlength⟩ :=
      hleft.accumulates _ hdepth (Nat.le_of_eq (Level.tightness_of_operator? hlevel))
    have hshorter := hright.spans.spans.length_lt
    rw [List.length_cons] at hlength
    have hreads : ∀ budget, Reads (operand tier budget) setup _ _ _ :=
      hright.reads (level + 1) (by omega) hfollow
    refine ⟨start, between, level + 1, hstart, fun budget => ?_, by omega⟩
    exact .binary hlevel (hrepeats budget) (by omega) (hreads budget) (Nat.le_of_lt hshorter)

/-- Every operand of a level is read, by the next tighter level or as a prefix expression. -/
theorem Operand.reads {tier : Level} {e : Expr} {input rest : Input} :
    Operand tier input e rest → ∀ depth, depth + input.length ≤ setup.limit →
      (nextKind rest).tightness ≤ tier.tightness →
      ∀ budget, Reads (operand tier budget) setup ⟨input, depth⟩ e ⟨rest, depth⟩
  | .chain htighter hchain => by
    intro depth hdepth hfollow budget
    have htightness := Level.tightness_tighter htighter
    rw [operand_eq_chain htighter]
    exact (hchain.accumulates _ hdepth (by omega)).chain (by omega) budget
  | .unary hunary => by
    intro depth hdepth hfollow
    exact hunary.reads _ hdepth hfollow

theorem Unary.reads {e : Expr} {input rest : Input} :
    Unary input e rest → ∀ depth, depth + input.length ≤ setup.limit →
      (nextKind rest).tightness ≤ 7 →
      ∀ budget, Reads (unary budget) setup ⟨input, depth⟩ e ⟨rest, depth⟩
  | .operator hsymbol hoperand => by
    intro depth hdepth hfollow
    rw [List.length_cons] at hdepth
    exact .unary_operator hsymbol (by omega) (hoperand.reads _ (by omega) hfollow)
  | .plus hunary => by
    intro depth hdepth hfollow
    rw [List.length_cons] at hdepth
    exact .unary_plus (hunary.reads _ (by omega) hfollow)
  | .primary hprimary => by
    intro depth hdepth hfollow
    exact .unary_primary hprimary.starts (hprimary.reads _ hdepth hfollow)

/-- Every primary expression is read if the limit is as great as the input is long. -/
theorem Primary.reads {e : Expr} {input rest : Input} :
    Primary input e rest → ∀ depth, depth + input.length ≤ setup.limit →
      (nextKind rest).tightness ≤ 7 →
      ∀ budget, Reads (primary budget) setup ⟨input, depth⟩ e ⟨rest, depth⟩
  | .number => by
    intro depth hdepth hfollow
    exact .primary_number
  | .parentheses hstatement => by
    intro depth hdepth hfollow
    rw [List.length_cons] at hdepth
    exact .primary_parentheses (hstatement.reads _ (by omega) rfl)
  | .call hpath harity harguments => by
    intro depth hdepth hfollow
    rw [List.length_cons, List.length_cons] at hdepth
    obtain ⟨first, between, hfirst, hrepeats⟩ :=
      harguments.repeats depth (by decide) (by omega) rfl
    refine .primary_call hpath harity
      (.arguments_some harguments.spans.ne_rightParen hfirst fun budget => ?_)
    exact hrepeats budget _ appends_argumentStep
  | .emptyCall hpath harity => by
    intro depth hdepth hfollow
    exact .primary_call hpath harity.symm .arguments_nil
  | .pi hpath => by
    intro depth hdepth hfollow
    exact .primary_pi hpath (ne_leftParen_of_tightness hfollow)
  | .reference hpath => by
    intro depth hdepth hfollow
    exact .primary_reference hpath (ne_leftParen_of_tightness hfollow)
  | .emptyParens hpath => by
    intro depth hdepth hfollow
    exact .primary_emptyParens hpath

/-- The loop behind the first statement reads all the others. -/
theorem Statements.repeats {separators : List Symbol} {es : List Expr} {input rest : Input} :
    Statements separators input es rest → ∀ depth,
      (∀ symbol ∈ separators, (Token.Kind.symbol symbol).tightness = 0) →
      depth + input.length < setup.limit → (nextKind rest).tightness = 0 →
      ∃ first between,
        (∀ budget, Reads (statement budget) setup ⟨input, depth⟩ first ⟨between, depth⟩) ∧
        ∀ budget step, Appends separators setup budget step →
          Repeats step setup [first] ⟨between, depth⟩ es ⟨rest, depth⟩
  | .single hstatement => by
    intro depth _ hdepth hfollow
    exact ⟨_, _, hstatement.reads _ hdepth hfollow, fun _ _ _ => .refl⟩
  | .append hsymbol hstatements hstatement => by
    intro depth hseparators hdepth hfollow
    obtain ⟨first, between, hfirst, hrepeats⟩ :=
      hstatements.repeats depth hseparators hdepth (hseparators _ hsymbol)
    have hbefore := hstatements.spans.length_lt
    have hshorter := hstatement.spans.length_lt
    rw [List.length_cons] at hbefore
    refine ⟨first, between, hfirst, fun budget step happends => ?_⟩
    refine (hrepeats budget step happends).again ?_ (Nat.lt_succ_of_lt hshorter)
    exact happends hsymbol hstatement.spans.ne_end (hstatement.reads _ (by omega) hfollow budget)

end

/-! ### Programs -/

theorem Ending.tightness {rest : Input} (hending : Ending rest) :
    (nextKind rest).tightness = 0 := by
  cases hending with
  | plain => rfl
  | separated hsymbol =>
      obtain rfl | rfl := by simpa using hsymbol
      · rfl
      · rfl

theorem Ending.ne_nil {rest : Input} (hending : Ending rest) : rest ≠ [] := by
  cases hending <;> exact List.cons_ne_nil _ _

/-- The loop over the statements of a program passes the separator before the end. -/
theorem Ending.stops {rest : Input} {es : List Expr} {statement : Parser Expr}
    (hending : Ending rest) :
    Reads (statementStep statement es) setup ⟨rest, 0⟩ none ⟨[.endOfInput], 0⟩ := by
  cases hending with
  | plain => exact .peek .pure
  | separated hsymbol =>
      obtain rfl | rfl := by simpa using hsymbol
      · exact .peek (.advance (.peek .pure))
      · exact .peek (.advance (.peek .pure))

/-- The statements that the loop has come to in front of the ending are the program. -/
theorem Ending.reads_program {first e : Expr} {es : List Expr} {input between rest : Input}
    {budget : Nat} (hending : Ending rest)
    (hfirst : Reads (statement budget) setup ⟨input, 0⟩ first ⟨between, 0⟩)
    (hrepeats : Repeats (statementStep (statement budget)) setup [first] ⟨between, 0⟩ es ⟨rest, 0⟩)
    (hresult : es = [e] ∨ (1 < es.length ∧ e = .sequence es)) :
    Reads (program budget) setup ⟨input, 0⟩ e ⟨[], 0⟩ := by
  have hloop : Reads (repeatStep (statementStep (statement budget)) [first]) setup ⟨between, 0⟩ es
      ⟨[.endOfInput], 0⟩ :=
    hrepeats.reads hending.stops fun hempty => absurd hempty hending.ne_nil
  rw [program]
  refine hfirst.bind (hloop.bind (Reads.expect.bind ?_))
  obtain rfl | ⟨hlength, rfl⟩ := hresult
  · exact .pure
  · obtain _ | ⟨_, _ | ⟨_, _⟩⟩ := es
    · exact absurd hlength (by decide)
    · exact absurd hlength (Nat.lt_irrefl 1)
    · exact .pure

/-- Statements up to an ending are read as a program. -/
theorem Statements.reads_program {es : List Expr} {e : Expr} {input rest : Input}
    (hstatements : Statements [.semicolon, .comma] input es rest) (hending : Ending rest)
    (hdepth : input.length < setup.limit) (hresult : es = [e] ∨ (1 < es.length ∧ e = .sequence es))
    (budget : Nat) : Reads (program budget) setup ⟨input, 0⟩ e ⟨[], 0⟩ := by
  have hlimit : 0 + input.length < setup.limit := by omega
  obtain ⟨first, between, hfirst, hrepeats⟩ :=
    hstatements.repeats 0 (by decide) hlimit hending.tightness
  exact hending.reads_program (hfirst budget) (hrepeats budget _ appends_statementStep) hresult

/-- A program of the grammar is accepted where the nesting may be as deep as the input is long. -/
theorem Program.reads {e : Expr} {input : Input} (hprogram : Program input e)
    (hdepth : input.length < setup.limit) (budget : Nat) :
    Reads (program budget) setup ⟨input, 0⟩ e ⟨[], 0⟩ := by
  cases hprogram with
  | single hstatement hending =>
      exact Statements.reads_program (.single hstatement) hending hdepth (Or.inl rfl) budget
  | several hstatements hmany hending =>
      exact hstatements.reads_program hending hdepth (Or.inr ⟨hmany, rfl⟩) budget

end Grammar

end MotionScript
