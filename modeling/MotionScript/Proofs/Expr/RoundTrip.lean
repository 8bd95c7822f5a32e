import MotionScript.Proofs.Expr.Printed
import MotionScript.Proofs.Parser.Acceptance
import MotionScript.Proofs.Parser.Levels
/-!
# What was printed is read back

A parenthesis costs the level of the statement inside it, and an operator costs one more for the
operands behind it.  An expression inside another one is thus at most two levels deeper than that
one, and so is the text of a constant: twice the height of a tree and a little more is deep enough
for its text.
-/

namespace MotionScript

open MotionScript.Parser MotionScript.Grammar

/-! ### Operators of the grammar -/

theorem BinaryOp.exists_level (operator : BinaryOp) :
    ∃ tier : Level, tier.operator? (.symbol operator.symbol) = some operator := by
  cases operator with
  | add | sub => exact ⟨.term, rfl⟩
  | mul | div | mod => exact ⟨.factor, rfl⟩
  | eq | ne => exact ⟨.equality, rfl⟩
  | lt | le | gt | ge => exact ⟨.comparison, rfl⟩
  | and => exact ⟨.and, rfl⟩
  | or => exact ⟨.or, rfl⟩

theorem BinaryOp.assignment?_symbol (operator : BinaryOp) :
    assignment? (.symbol operator.symbol) = none := by
  cases operator <;> rfl

/-! ### Operands and statements -/

variable {setup : Setup}

/-- In front of a token that does not go on with an operand, the tokens are read as the operand if
some levels of nesting are left. -/
structure Parser.ReadsOperand (setup : Setup) (kinds : List Token.Kind) (levels : Nat)
    (e : Expr) : Prop where
  spans : ∀ rest, SpansPlainly (kinds ++ rest) rest
  reads : ∀ depth rest, depth + levels ≤ setup.limit → (nextKind rest).tightness ≤ 7 →
    ∀ budget, Reads (unary budget) setup ⟨kinds ++ rest, depth⟩ e ⟨rest, depth⟩

/-- In front of a token that does not go on with a statement, the tokens are read as the statement
if some levels of nesting are left. -/
structure Parser.ReadsStatement (setup : Setup) (kinds : List Token.Kind) (levels : Nat)
    (e : Expr) : Prop where
  spans : ∀ rest, Spans (kinds ++ rest) rest
  reads : ∀ depth rest, depth + levels ≤ setup.limit → (nextKind rest).tightness = 0 →
    ∀ budget, Reads (statement budget) setup ⟨kinds ++ rest, depth⟩ e ⟨rest, depth⟩

namespace Parser.ReadsOperand

variable {kinds leftKinds rightKinds : List Token.Kind} {levels leftLevels rightLevels : Nat}
  {e left right : Expr}

theorem mono {more : Nat} (hreads : ReadsOperand setup kinds levels e) (hmore : levels ≤ more) :
    ReadsOperand setup kinds more e where
  spans := hreads.spans
  reads depth rest hdepth := hreads.reads depth rest (by omega)

theorem of_ternary (hspans : ∀ rest, SpansPlainly (kinds ++ rest) rest)
    (hreads : ∀ depth rest, depth + levels ≤ setup.limit → (nextKind rest).tightness = 0 →
      ∀ budget, Reads (ternary budget) setup ⟨kinds ++ rest, depth⟩ e ⟨rest, depth⟩) :
    ReadsStatement setup kinds (levels + 1) e where
  spans rest := (hspans rest).spans
  reads depth rest hdepth hfollow :=
    .statement_ternary (by omega) (assignment?_second (hspans rest) hfollow)
      (hreads (depth + 1) rest (by omega) hfollow)

/-- An operand may be a whole statement. -/
theorem statement (hreads : ReadsOperand setup kinds levels e) :
    ReadsStatement setup kinds (levels + 1) e := by
  apply of_ternary hreads.spans
  intro depth rest hdepth hfollow
  have hunary := hreads.reads depth rest hdepth (by omega)
  exact .ternary_of_chain .factor (.chain_of_unary .factor hunary (by rw [hfollow]; decide)) hfollow

theorem unary (operator : UnaryOp) (hreads : ReadsOperand setup kinds levels e) :
    ReadsOperand setup (.symbol operator.symbol :: kinds) (levels + 1) (.unary operator e) where
  spans rest := (hreads.spans rest).spans.cons (startsExpression_sign operator.spelling_symbol)
  reads depth rest hdepth hfollow :=
    .unary_operator operator.spelling_symbol (by omega)
      (hreads.reads (depth + 1) rest (by omega) hfollow)

/-- Each operator is read back at a level of its own between its two operands. -/
theorem binary (operator : BinaryOp) (hleft : ReadsOperand setup leftKinds leftLevels left)
    (hright : ReadsOperand setup rightKinds rightLevels right) :
    ReadsStatement setup (leftKinds ++ .symbol operator.symbol :: rightKinds)
      (max leftLevels (rightLevels + 1) + 1) (.binary operator left right) := by
  obtain ⟨tier, hoperator⟩ := operator.exists_level
  have htightness := Level.tightness_of_operator? hoperator
  have hbound := tier.tightness_le
  refine of_ternary (fun rest => ?_) (fun depth rest hdepth hfollow => ?_)
  · rw [List.append_assoc]
    exact (hleft.spans _).append operator.assignment?_symbol symbol_ne_end (hright.spans rest).spans
  · rw [List.append_assoc]
    have hreadsLeft := hleft.reads depth (.symbol operator.symbol :: (rightKinds ++ rest))
      (by omega) (by rw [nextKind_cons]; omega)
    have hreadsRight := hright.reads (depth + 1) rest (by omega) (by omega)
    have hfirst := Reads.operand_of_unary tier hreadsLeft (Nat.le_of_eq htightness)
    have hrepeats (budget : Nat) : Repeats (operatorStep tier (operand tier budget)) setup left
        ⟨.symbol operator.symbol :: (rightKinds ++ rest), depth⟩ (.binary operator left right)
        ⟨rest, depth + 1⟩ :=
      .binary hoperator .refl (by omega) (.operand_of_unary tier hreadsRight (by omega) budget)
        (Nat.le_of_lt (hright.spans rest).spans.length_lt)
    have hstop := Level.operator?_of_tightness (hfollow ▸ tier.tightness_pos)
    exact .ternary_of_chain tier (.chain hfirst hrepeats hstop) hfollow

/-- A conditional is read back from its three parts and the two marks between them. -/
theorem conditional {condition whenTrue whenFalse : Expr}
    {conditionKinds trueKinds falseKinds : List Token.Kind}
    {conditionLevels trueLevels falseLevels : Nat}
    (hcondition : ReadsOperand setup conditionKinds conditionLevels condition)
    (hwhenTrue : ReadsOperand setup trueKinds trueLevels whenTrue)
    (hwhenFalse : ReadsOperand setup falseKinds falseLevels whenFalse) :
    ReadsStatement setup
      (conditionKinds ++ .symbol .question :: (trueKinds ++ .symbol .colon :: falseKinds))
      (max conditionLevels (max trueLevels falseLevels + 1) + 1)
      (.conditional condition whenTrue whenFalse) := by
  refine of_ternary (fun rest => ?_) (fun depth rest hdepth hfollow => ?_)
  · simp only [List.append_assoc, List.cons_append]
    have hbranches := (hwhenTrue.spans (.symbol .colon :: (falseKinds ++ rest))).spans.append
      symbol_ne_end (hwhenFalse.spans rest).spans
    exact (hcondition.spans _).append rfl symbol_ne_end hbranches
  · simp only [List.append_assoc, List.cons_append]
    have htrue := (hwhenTrue.spans (.symbol .colon :: (falseKinds ++ rest))).spans.length_lt
    have hfalse := (hwhenFalse.spans rest).spans.length_lt
    rw [List.length_cons] at htrue
    have hreadsCondition := hcondition.reads depth
      (.symbol .question :: (trueKinds ++ .symbol .colon :: (falseKinds ++ rest)))
      (by omega) (by rw [nextKind_cons]; decide)
    have hreadsTrue := hwhenTrue.reads (depth + 1) (.symbol .colon :: (falseKinds ++ rest))
      (by omega) (by rw [nextKind_cons]; decide)
    have hreadsFalse := hwhenFalse.reads (depth + 1) rest (by omega) (by omega)
    have hrepeats (budget : Nat) : Repeats (conditionalStep (chain .or budget)) setup condition
        ⟨.symbol .question :: (trueKinds ++ .symbol .colon :: (falseKinds ++ rest)), depth⟩
        (.conditional condition whenTrue whenFalse) ⟨rest, depth + 1⟩ :=
      .conditional .refl (by omega)
        (.chain_of_unary .or hreadsTrue (by rw [nextKind_cons]; decide) budget)
        (.chain_of_unary .or hreadsFalse (hfollow ▸ Level.or.tightness_pos) budget) (by omega)
    have hfirst := Reads.chain_of_unary .or hreadsCondition (by rw [nextKind_cons]; decide)
    refine .ternary hfirst hrepeats fun hquestion => ?_
    rw [hquestion] at hfollow
    cases hfollow

end Parser.ReadsOperand

namespace Parser.ReadsStatement

variable {kinds : List Token.Kind} {levels : Nat} {e : Expr}

theorem assign (operator : AssignOp) {scope : Scope} (name : String)
    (hwritable : scope = .variable ∨ scope = .temp)
    (hreads : ReadsStatement setup kinds levels e) :
    ReadsStatement setup (.path (Expr.nameText scope name) :: .symbol operator.symbol :: kinds)
      (levels + 1) (.assign operator scope name e) where
  spans rest := (hreads.spans rest).assign
  reads depth rest hdepth hfollow :=
    .statement_assign (by omega) (Or.inl rfl) hwritable operator.spelling_symbol
      (hreads.reads (depth + 1) rest (by omega) hfollow)

/-- Parentheses make an operand out of a statement. -/
theorem parenthesized (hreads : ReadsStatement setup kinds levels e) :
    ReadsOperand setup (Expr.parenthesized kinds) levels e where
  spans rest := by
    rw [Expr.parenthesized, List.cons_append, List.append_assoc]
    exact ((hreads.spans (.symbol .rightParen :: rest)).drop symbol_ne_end).cons rfl
  reads depth rest hdepth hfollow := by
    rw [Expr.parenthesized, List.cons_append, List.append_assoc]
    exact .unary_primary (Or.inr (Or.inr rfl))
      (.primary_parentheses (hreads.reads depth _ hdepth rfl))

theorem mono {more : Nat} (hreads : ReadsStatement setup kinds levels e) (hmore : levels ≤ more) :
    ReadsStatement setup kinds more e where
  spans := hreads.spans
  reads depth rest hdepth := hreads.reads depth rest (by omega)

end Parser.ReadsStatement

/-! ### Leaves -/

namespace Parser.ReadsOperand

theorem number {value : Float32} : ReadsOperand setup [.number value] 0 (.constant value) where
  spans _ := .single rfl
  reads _ _ _ _ := .unary_primary (Or.inl ⟨_, rfl⟩) .primary_number

theorem reference {scope : Scope} {name : String} :
    ReadsOperand setup [.path (Expr.nameText scope name)] 0 (.reference scope name) where
  spans _ := .single rfl
  reads _ _ _ hfollow := .unary_primary (Or.inr (Or.inl ⟨_, rfl⟩))
    (.primary_reference (Or.inl rfl) (ne_leftParen_of_tightness hfollow))

theorem pi : ReadsOperand setup [.path MathFunction.pi.qualifiedName] 0 (.call .pi []) where
  spans _ := .single rfl
  reads _ _ _ hfollow := .unary_primary (Or.inr (Or.inl ⟨_, rfl⟩))
    (.primary_pi (Or.inl rfl) (ne_leftParen_of_tightness hfollow))

/-- A constant is read back as the number, negation or quotient that it is printed as. -/
theorem constant (value : Float32) :
    ReadsOperand setup (Expr.constantKinds value) 2 (Expr.rereadConstant value) := by
  unfold Expr.constantKinds Expr.rereadConstant
  split
  · exact (number.binary .div number).parenthesized
  · split
    · split
      · exact ((number.unary .neg).binary .div number).parenthesized
      · exact (number.binary .div number).parenthesized
    · split
      · exact (number.unary .neg).statement.parenthesized
      · exact number.mono (Nat.zero_le 2)

end Parser.ReadsOperand

/-! ### Lists -/

theorem Expr.tightness_kindsBehind {separator : Symbol} {es : List Expr} {rest : List Token.Kind}
    (hseparator : (Token.Kind.symbol separator).tightness = 0)
    (hfollow : (nextKind rest).tightness = 0) :
    (nextKind (kindsBehind separator es ++ rest)).tightness = 0 := by
  cases es with
  | nil => exact hfollow
  | cons e es => exact hseparator

/-- A loop that appends a statement in each step reads statements with separators before them. -/
theorem Parser.Repeats.statements {separators : List Symbol} {separator : Symbol} {budget : Nat}
    {step : List Expr → Parser (Option (List Expr))} {first read : List Expr} {before : View}
    {depth levels : Nat} {es : List Expr} {rest : List Token.Kind}
    (happends : Appends separators setup budget step) (hmem : separator ∈ separators)
    (hseparator : (Token.Kind.symbol separator).tightness = 0)
    (hstatements : ∀ e ∈ es, ReadsStatement setup e.kinds levels e.reread)
    (hdepth : depth + levels ≤ setup.limit) (hfollow : (nextKind rest).tightness = 0)
    (hrepeats : Repeats step setup first before read
      ⟨Expr.kindsBehind separator es ++ rest, depth⟩) :
    Repeats step setup first before (read ++ Expr.rereadAll es) ⟨rest, depth⟩ := by
  induction es generalizing read with
  | nil =>
      rw [Expr.rereadAll, List.append_nil]
      exact hrepeats
  | cons e es ih =>
      obtain ⟨hhead, htail⟩ := List.forall_mem_cons.1 hstatements
      have hspans := hhead.spans (Expr.kindsBehind separator es ++ rest)
      have hbehind : (nextKind (Expr.kindsBehind separator es ++ rest)).tightness = 0 :=
        Expr.tightness_kindsBehind hseparator hfollow
      have hstatement := hhead.reads depth _ hdepth hbehind budget
      rw [Expr.kindsBehind, List.cons_append, List.append_assoc] at hrepeats
      have hnext := hrepeats.again (happends hmem hspans.ne_end hstatement)
        (Nat.lt_succ_of_lt hspans.length_lt)
      have hall := ih htail hnext
      rw [List.append_assoc] at hall
      exact hall

/-- Printed statements with separators between them span the text of the list. -/
theorem Parser.ReadsStatement.spans_list (separator : Symbol) {levels : Nat} {e : Expr}
    {es : List Expr} {rest : List Token.Kind}
    (hstatements : ∀ e' ∈ e :: es, ReadsStatement setup e'.kinds levels e'.reread) :
    Spans (e.kinds ++ (Expr.kindsBehind separator es ++ rest)) rest := by
  induction es generalizing e with
  | nil => exact (hstatements e List.mem_cons_self).spans rest
  | cons next es ih =>
      obtain ⟨hhead, htail⟩ := List.forall_mem_cons.1 hstatements
      rw [Expr.kindsBehind, List.cons_append, List.append_assoc]
      exact (hhead.spans _).append symbol_ne_end (ih htail)

/-- The first statement of a list is read, and the loop behind it reads the others. -/
theorem Parser.ReadsStatement.reads_list (separator : Symbol) (rest : List Token.Kind)
    {separators : List Symbol} {step : Nat → List Expr → Parser (Option (List Expr))}
    {depth levels : Nat} {e : Expr} {es : List Expr}
    (hstatements : ∀ e' ∈ e :: es, ReadsStatement setup e'.kinds levels e'.reread)
    (happends : ∀ budget, Appends separators setup budget (step budget))
    (hmem : separator ∈ separators) (hseparator : (Token.Kind.symbol separator).tightness = 0)
    (hdepth : depth + levels ≤ setup.limit) (hfollow : (nextKind rest).tightness = 0) :
    (∀ budget, Reads (statement budget) setup
      ⟨e.kinds ++ (Expr.kindsBehind separator es ++ rest), depth⟩ e.reread
      ⟨Expr.kindsBehind separator es ++ rest, depth⟩) ∧
      ∀ budget, Repeats (step budget) setup [e.reread]
        ⟨Expr.kindsBehind separator es ++ rest, depth⟩ (Expr.rereadAll (e :: es))
        ⟨rest, depth⟩ := by
  obtain ⟨hhead, htail⟩ := List.forall_mem_cons.1 hstatements
  have hbehind : (nextKind (Expr.kindsBehind separator es ++ rest)).tightness = 0 :=
    Expr.tightness_kindsBehind hseparator hfollow
  refine ⟨hhead.reads depth _ hdepth hbehind, fun budget => ?_⟩
  exact Repeats.refl.statements (happends budget) hmem hseparator htail hdepth hfollow

/-- A call is read back with as many arguments as its function takes. -/
theorem Parser.ReadsOperand.call {function : MathFunction} {levels : Nat} {e : Expr}
    {es : List Expr} (harity : (e :: es).length = function.arity)
    (hstatements : ∀ e' ∈ e :: es, ReadsStatement setup e'.kinds levels e'.reread) :
    ReadsOperand setup (.path function.qualifiedName ::
        Expr.parenthesized (Expr.kindsBehind .comma (e :: es)).tail) levels
      (.call function (Expr.rereadAll (e :: es))) := by
  have hinput (rest : List Token.Kind) : (.path function.qualifiedName ::
        Expr.parenthesized (Expr.kindsBehind .comma (e :: es)).tail) ++ rest =
      .path function.qualifiedName :: .symbol .leftParen ::
        (e.kinds ++ (Expr.kindsBehind .comma es ++ .symbol .rightParen :: rest)) := by
    simp [Expr.parenthesized, Expr.kindsBehind]
  have hlength : (Expr.rereadAll (e :: es)).length = function.arity := by
    rw [Expr.rereadAll_eq_map, List.length_map, harity]
  have hspans (rest : List Token.Kind) : Spans _ (.symbol .rightParen :: rest) :=
    ReadsStatement.spans_list .comma hstatements
  refine ⟨fun rest => ?_, fun depth rest hdepth _ => ?_⟩
  · rw [hinput]
    exact (((hspans rest).drop symbol_ne_end).cons rfl).spans.cons rfl
  · obtain ⟨hfirst, hrepeats⟩ := ReadsStatement.reads_list .comma (.symbol .rightParen :: rest)
      hstatements (fun _ => appends_argumentStep) (List.mem_singleton_self _) rfl hdepth rfl
    rw [hinput]
    refine .unary_primary (Or.inr (Or.inl ⟨_, rfl⟩)) (.primary_call (Or.inl rfl) hlength ?_)
    exact .arguments_some (hspans rest).ne_rightParen hfirst hrepeats

namespace Expr

/-- Statements cost what an expression above them would cost, and no more. -/
theorem readsStatement_of_mem {es : List Expr} {e : Expr} (hmem : e ∈ es)
    (hreads : ReadsOperand setup e.kinds (2 * e.height + 2) e.reread) :
    ReadsStatement setup e.kinds (2 * heightAbove es + 1) e.reread := by
  have hheight := heightAbove_le_iff.1 (Nat.le_refl (heightAbove es)) e hmem
  exact hreads.statement.mono (by omega)

/-- An expression inside another one costs two levels for each of the expressions around it. -/
theorem Nested.readsOperand {e : Expr} (hnested : Nested e) :
    ReadsOperand setup e.kinds (2 * e.height + 2) e.reread := by
  induction hnested with
  | constant => exact .constant _
  | reference => exact ReadsOperand.reference.mono (Nat.zero_le _)
  | @unary operator operand _ ih =>
      have hreads := (ih.unary operator).statement.parenthesized
      exact hreads.mono (by rw [height]; omega)
  | @binary operator left right _ _ ihLeft ihRight =>
      have hreads := (ihLeft.binary operator ihRight).parenthesized
      exact hreads.mono (by rw [height]; omega)
  | @conditional condition whenTrue whenFalse _ _ _ ihCondition ihTrue ihFalse =>
      have hreads := (ihCondition.conditional ihTrue ihFalse).parenthesized
      exact hreads.mono (by rw [height]; omega)
  | @assign operator scope name value hwritable _ _ ih =>
      have hreads := (ih.statement.assign operator name hwritable).parenthesized
      exact hreads.mono (by rw [height]; omega)
  | @call function arguments harity _ ih =>
      by_cases hpi : function = .pi
      · subst hpi
        rw [List.length_eq_zero_iff.1 harity]
        exact ReadsOperand.pi.mono (Nat.zero_le _)
      · cases arguments with
        | nil => exact absurd harity.symm (MathFunction.arity_ne_zero hpi)
        | cons e es =>
            have hreads : ReadsOperand setup _ _ (.call function (rereadAll (e :: es))) :=
              .call harity fun e' hmem => readsStatement_of_mem hmem (ih e' hmem)
            rw [kinds_call hpi]
            exact hreads.mono (Nat.le_succ _)

/-- The tokens of a well-formed expression are read as the expression that its text stands for. -/
theorem WellFormed.reads_program {e : Expr} (hwellFormed : e.WellFormed)
    (hlimit : 2 * e.height + 3 ≤ setup.limit) (budget : Nat) :
    Reads (program budget) setup ⟨e.programKinds ++ [.endOfInput], 0⟩ e.reread ⟨[], 0⟩ := by
  cases hwellFormed with
  | nested hnested =>
      have hstatement : ReadsStatement setup e.kinds (2 * e.height + 3) e.reread :=
        hnested.readsOperand.statement
      have hfirst := hstatement.reads 0 [.endOfInput] (by omega) rfl budget
      rw [hnested.programKinds_eq]
      exact Ending.plain.reads_program hfirst .refl (Or.inl rfl)
  | @sequence statements hmany hnested =>
      cases statements with
      | nil => cases hmany
      | cons e es =>
          have hlevels : 0 + (2 * heightAbove (e :: es) + 1) ≤ setup.limit := by
            rw [height] at hlimit
            omega
          have hstatements : ∀ e' ∈ e :: es,
              ReadsStatement setup e'.kinds (2 * heightAbove (e :: es) + 1) e'.reread :=
            fun e' hmem => readsStatement_of_mem hmem (hnested e' hmem).readsOperand
          obtain ⟨hfirst, hrepeats⟩ := ReadsStatement.reads_list .semicolon [.endOfInput]
            hstatements (fun _ => appends_statementStep) List.mem_cons_self rfl hlevels rfl
          have hlength : 1 < (rereadAll (e :: es)).length := by
            rw [rereadAll_eq_map, List.length_map]
            exact hmany
          rw [programKinds, kindsBehind, List.tail_cons, List.append_assoc]
          exact Ending.plain.reads_program (hfirst budget) (hrepeats budget) (Or.inr ⟨hlength, rfl⟩)

/-! ### Texts -/

/-- A program that is read under every budget is read under the one that the tokens are given. -/
theorem ofTokens_of_reads {limit : Nat} {tokens : List Token} {e : Expr}
    (hreads : ∀ lastOffset budget,
      Reads (program budget) ⟨limit, lastOffset⟩ ⟨tokens.map Token.kind, 0⟩ e ⟨[], 0⟩) :
    ofTokens limit tokens = .ok e := by
  have hrun (lastOffset : Nat) : ∃ state,
      program (sufficientBudget tokens) ⟨limit, lastOffset⟩ ⟨tokens, 0⟩ = .done e state := by
    obtain hexhausted | ⟨state, hdone, _⟩ :=
      hreads lastOffset (sufficientBudget tokens) ⟨tokens, 0⟩ rfl
    · exact absurd hexhausted (program_ne_exhausted (Nat.le_refl _))
    · exact ⟨state, hdone⟩
  obtain ⟨state, hdone⟩ := hrun ((tokens.getLast?.map Token.start).getD 0)
  unfold ofTokens
  dsimp only
  rw [hdone]

/-- The text of a well-formed expression is accepted under a limit that leaves two levels for each
edge of the expression. -/
theorem WellFormed.parseWithin_text_eq {e : Expr} {limit : Nat} (hwellFormed : e.WellFormed)
    (hlimit : 2 * e.height + 3 ≤ limit) : parseWithin limit e.text = .ok e.reread := by
  obtain ⟨tokens, htokens, hkinds⟩ := hwellFormed.tokenize_text
  have hparsed : ofTokens limit tokens = .ok e.reread := by
    apply ofTokens_of_reads
    intro lastOffset budget
    rw [hkinds]
    exact hwellFormed.reads_program hlimit budget
  simp only [parseWithin, htokens, hparsed]
  rfl

/-- The text of a well-formed expression is read as the expression, but for the constants that no
numeral stands for.  Simplifying what is read brings back each finite one among them. -/
theorem parseWithin_text {e : Expr} {limit : Nat} (hwellFormed : e.WellFormed)
    (hlimit : 2 * e.height + 3 ≤ limit) :
    parseWithin limit e.text = .ok e.reread ∧
      (e.simplify = e → (∀ value ∈ e.constants, value.isFinite = true) →
        e.reread.simplify = e) := by
  refine ⟨hwellFormed.parseWithin_text_eq hlimit, fun hsimplified hfinite => ?_⟩
  exact (simplify_reread hfinite).trans hsimplified

/-- One sign belongs to a constant and is folded again, and the other stays an operator. -/
theorem parseWithin_text_statements :
    2 * 4 + 3 ≤ 11 ∧
      parseWithin 11 "(variable.x += (-math.max((-2), query.a.b))); (!temp.y)" = .ok (.sequence
        [.assign .add .variable "x"
          (.unary .neg (.call .max [.unary .neg (.constant 2), .reference .query "a.b"])),
        .unary .not (.reference .temp "y")]) ∧
      Expr.simplify (.sequence
        [.assign .add .variable "x"
          (.unary .neg (.call .max [.unary .neg (.constant 2), .reference .query "a.b"])),
        .unary .not (.reference .temp "y")]) = .sequence
        [.assign .add .variable "x"
          (.unary .neg (.call .max [.constant (-2), .reference .query "a.b"])),
        .unary .not (.reference .temp "y")] := by
  have hname : Nested (.reference .query "a.b") := .reference rfl
  have hmax : Nested (.call .max [.constant (-2), .reference .query "a.b"]) := by
    refine .call rfl fun e hmem => ?_
    obtain rfl | hmem := List.mem_cons.1 hmem
    · exact .constant
    · rw [List.mem_singleton.1 hmem]
      exact hname
  have hfirst : Nested (.assign .add .variable "x"
      (.unary .neg (.call .max [.constant (-2), .reference .query "a.b"]))) :=
    .assign (Or.inl rfl) rfl (.unary hmax)
  have hwellFormed : WellFormed (.sequence [.assign .add .variable "x"
      (.unary .neg (.call .max [.constant (-2), .reference .query "a.b"])),
      .unary .not (.reference .temp "y")]) := by
    refine .sequence (Nat.le_refl 2) fun e hmem => ?_
    obtain rfl | hmem := List.mem_cons.1 hmem
    · exact hfirst
    · rw [List.mem_singleton.1 hmem]
      exact .unary (.reference rfl)
  have hlimit : 2 * 4 + 3 ≤ 11 := Nat.le_refl 11
  obtain ⟨hread, hsimplify⟩ := parseWithin_text hwellFormed hlimit
  exact ⟨hlimit, hread, hsimplify rfl (by decide)⟩

end Expr

end MotionScript
