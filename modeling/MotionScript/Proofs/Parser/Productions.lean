import MotionScript.Proofs.Parser.Reading
import MotionScript.Proofs.Parser.Terminals
/-!
# Reading the productions

One rule for each production of the grammar: where the parts are read, the whole is read, with the
nesting that the production is charged for.  A rule asks for what the parser looks at beyond the
production itself, which is the next token and, for statements, the second one.
-/

namespace MotionScript.Parser

variable {setup : Setup} {input between rest : List Token.Kind} {depth level : Nat}

namespace Reads

/-! ### Statements -/

/-- A statement is what is read on the level that it enters. -/
theorem statement_assignment {e : Expr} (hdepth : depth < setup.limit)
    (hassignment : ∀ budget,
      Reads (assignment budget) setup ⟨input, depth + 1⟩ e ⟨rest, depth + 1⟩)
    (budget : Nat) : Reads (statement budget) setup ⟨input, depth⟩ e ⟨rest, depth⟩ := by
  cases budget with
  | zero => exact .exhausted
  | succ budget => exact (Reads.enter hdepth).bind (hassignment budget).leaving

/-- A statement that is no assignment is read as an expression one level down. -/
theorem statement_ternary {e : Expr} (hdepth : depth < setup.limit)
    (hsecond : assignment? (nextKind input.tail) = none)
    (hternary : ∀ budget, Reads (ternary budget) setup ⟨input, depth + 1⟩ e ⟨rest, depth + 1⟩) :
    ∀ budget, Reads (statement budget) setup ⟨input, depth⟩ e ⟨rest, depth⟩ := by
  apply statement_assignment hdepth
  intro budget
  cases budget with
  | zero => exact .exhausted
  | succ budget =>
      refine .peekSecond ?_
      simp only [hsecond]
      exact hternary budget

/-- A writable name, an assignment sign and a value are read as an assignment. -/
theorem statement_assign {path name : String} {symbol : Symbol} {operator : AssignOp}
    {scope : Scope} {value : Expr} (hdepth : depth < setup.limit)
    (hpath : scope.SpelledBy name path) (hwritable : scope = .variable ∨ scope = .temp)
    (hsymbol : symbol.spelling = operator.spelling)
    (hvalue : ∀ budget,
      Reads (statement budget) setup ⟨input, depth + 1⟩ value ⟨rest, depth + 1⟩) :
    ∀ budget, Reads (statement budget) setup ⟨.path path :: .symbol symbol :: input, depth⟩
      (.assign operator scope name value) ⟨rest, depth⟩ := by
  apply statement_assignment hdepth
  intro budget
  cases budget with
  | zero => exact .exhausted
  | succ budget =>
      have hassignment : assignment? (.symbol symbol) = some operator :=
        assignment?_eq_some_iff.2 ⟨symbol, rfl, hsymbol⟩
      have htarget : Reads target setup ⟨.path path :: .symbol symbol :: input, depth + 1⟩
          (scope, name) ⟨.path path :: .symbol symbol :: input, depth + 1⟩ := by
        refine .peek ?_
        simp only [nextKind_cons, scopedName?_eq_some_iff.2 hpath, Scope.isWritable_iff.2 hwritable,
          if_true]
        exact .pure
      refine .peekSecond ?_
      simp only [List.tail_cons, nextKind_cons, hassignment]
      exact htarget.bind (.advance (.advance ((hvalue budget).bind .pure)))

/-! ### Chains -/

/-- A conditional chain is read as its condition and as many steps as there are question marks. -/
theorem ternary {e first : Expr}
    (hfirst : ∀ budget, Reads (chain .or budget) setup ⟨input, depth⟩ first ⟨between, depth⟩)
    (hrepeats : ∀ budget, Repeats (conditionalStep (chain .or budget)) setup first
      ⟨between, depth⟩ e ⟨rest, level⟩)
    (hstop : nextKind rest ≠ .symbol .question) (budget : Nat) :
    Reads (ternary budget) setup ⟨input, depth⟩ e ⟨rest, depth⟩ := by
  cases budget with
  | zero => exact .exhausted
  | succ budget =>
      rw [ternary_succ]
      exact (hfirst budget).chained (hrepeats budget) (.notAccept hstop .pure)

/-- A chain is read as its first operand and as many steps as there are operators. -/
theorem fold {tier : Level} {e first : Expr}
    (hfirst : ∀ budget, Reads (operand tier budget) setup ⟨input, depth⟩ first ⟨between, depth⟩)
    (hrepeats : ∀ budget, Repeats (operatorStep tier (operand tier budget)) setup first
      ⟨between, depth⟩ e ⟨rest, level⟩)
    (hstop : tier.operator? (nextKind rest) = none) (budget : Nat) :
    Reads (fold tier budget) setup ⟨input, depth⟩ e ⟨rest, depth⟩ := by
  cases budget with
  | zero => exact .exhausted
  | succ budget =>
      rw [fold_succ]
      refine (hfirst budget).chained (hrepeats budget) (.peek ?_)
      simp only [hstop]
      exact .pure

theorem chain {tier : Level} {e first : Expr}
    (hfirst : ∀ budget, Reads (operand tier budget) setup ⟨input, depth⟩ first ⟨between, depth⟩)
    (hrepeats : ∀ budget, Repeats (operatorStep tier (operand tier budget)) setup first
      ⟨between, depth⟩ e ⟨rest, level⟩)
    (hstop : tier.operator? (nextKind rest) = none) (budget : Nat) :
    Reads (chain tier budget) setup ⟨input, depth⟩ e ⟨rest, depth⟩ := by
  cases budget with
  | zero => exact .exhausted
  | succ budget => exact .fold hfirst hrepeats hstop budget

end Reads

namespace Repeats

theorem conditional {first condition whenTrue whenFalse : Expr} {before : View}
    {branch : Parser Expr} {middle : List Token.Kind}
    (hcondition : Repeats (conditionalStep branch) setup first before condition
      ⟨.symbol .question :: input, depth⟩)
    (hdepth : depth < setup.limit)
    (hwhenTrue : Reads branch setup ⟨input, depth + 1⟩ whenTrue
      ⟨.symbol .colon :: middle, depth + 1⟩)
    (hwhenFalse : Reads branch setup ⟨middle, depth + 1⟩ whenFalse ⟨rest, depth + 1⟩)
    (hshorter : rest.length ≤ input.length) :
    Repeats (conditionalStep branch) setup first before (.conditional condition whenTrue whenFalse)
      ⟨rest, depth + 1⟩ := by
  refine hcondition.again ?_ (Nat.lt_succ_of_le hshorter)
  refine .accept ((Reads.enter hdepth).bind (hwhenTrue.bind ?_))
  exact Reads.expect.bind (hwhenFalse.bind .pure)

theorem binary {tier : Level} {first left right : Expr} {before : View} {operand : Parser Expr}
    {symbol : Symbol} {operator : BinaryOp}
    (hoperator : tier.operator? (.symbol symbol) = some operator)
    (hleft : Repeats (operatorStep tier operand) setup first before left
      ⟨.symbol symbol :: input, depth⟩)
    (hdepth : depth < setup.limit)
    (hright : Reads operand setup ⟨input, depth + 1⟩ right ⟨rest, depth + 1⟩)
    (hshorter : rest.length ≤ input.length) :
    Repeats (operatorStep tier operand) setup first before (.binary operator left right)
      ⟨rest, depth + 1⟩ := by
  refine hleft.again (.peek ?_) (Nat.lt_succ_of_le hshorter)
  simp only [nextKind_cons, hoperator]
  exact .advance ((Reads.enter hdepth).bind (hright.bind .pure))

end Repeats

namespace Reads

/-! ### Operands -/

/-- A sign or a negation is read with its operand one level down. -/
theorem unary_operator {symbol : Symbol} {operator : UnaryOp} {operand : Expr}
    (hsymbol : symbol.spelling = operator.spelling) (hdepth : depth < setup.limit)
    (hoperand : ∀ budget, Reads (unary budget) setup ⟨input, depth + 1⟩ operand ⟨rest, depth + 1⟩)
    (budget : Nat) :
    Reads (unary budget) setup ⟨.symbol symbol :: input, depth⟩ (.unary operator operand)
      ⟨rest, depth⟩ := by
  cases budget with
  | zero => exact .exhausted
  | succ budget =>
      have hsigned : Reads (signed operator (unary budget)) setup
          ⟨.symbol symbol :: input, depth⟩ (.unary operator operand) ⟨rest, depth⟩ :=
        .advance ((Reads.enter hdepth).bind ((hoperand budget).leaving.bind .pure))
      refine .peek ?_
      cases operator with
      | neg =>
          obtain rfl : symbol = .minus := Symbol.eq_of_spelling_eq hsymbol
          exact hsigned
      | not =>
          obtain rfl : symbol = .bang := Symbol.eq_of_spelling_eq hsymbol
          exact hsigned

theorem unary_plus {e : Expr}
    (hunary : ∀ budget, Reads (unary budget) setup ⟨input, depth⟩ e ⟨rest, depth⟩)
    (budget : Nat) :
    Reads (unary budget) setup ⟨.symbol .plus :: input, depth⟩ e ⟨rest, depth⟩ := by
  cases budget with
  | zero => exact .exhausted
  | succ budget => exact .peek (.advance (hunary budget))

/-- A primary starts with a number, a path or a parenthesis, and so with no sign. -/
theorem unary_primary {e : Expr}
    (hstart : (∃ value, nextKind input = .number value) ∨ (∃ path, nextKind input = .path path) ∨
      nextKind input = .symbol .leftParen)
    (hprimary : ∀ budget, Reads (primary budget) setup ⟨input, depth⟩ e ⟨rest, depth⟩)
    (budget : Nat) : Reads (unary budget) setup ⟨input, depth⟩ e ⟨rest, depth⟩ := by
  cases budget with
  | zero => exact .exhausted
  | succ budget =>
      refine .peek ?_
      obtain ⟨value, hnumber⟩ | ⟨path, hpath⟩ | hopen := hstart
      · simp only [hnumber]
        exact hprimary budget
      · simp only [hpath]
        exact hprimary budget
      · simp only [hopen]
        exact hprimary budget

/-! ### Primaries -/

theorem primary_number {value : Float32} (budget : Nat) :
    Reads (primary budget) setup ⟨.number value :: rest, depth⟩ (.constant value)
      ⟨rest, depth⟩ := by
  cases budget with
  | zero => exact .exhausted
  | succ budget => exact .peek (.advance .pure)

theorem primary_parentheses {e : Expr}
    (hstatement : ∀ budget, Reads (statement budget) setup ⟨input, depth⟩ e
      ⟨.symbol .rightParen :: rest, depth⟩)
    (budget : Nat) :
    Reads (primary budget) setup ⟨.symbol .leftParen :: input, depth⟩ e ⟨rest, depth⟩ := by
  cases budget with
  | zero => exact .exhausted
  | succ budget => exact .peek (.advance ((hstatement budget).bind (Reads.expect.bind .pure)))

theorem checkArity {offset : Nat} {function : MathFunction} {arguments : List Expr}
    {before : View} (harity : arguments.length = function.arity) :
    Reads (checkArity offset function arguments) setup before (.call function arguments)
      before := by
  rw [Parser.checkArity, if_pos harity]
  exact .pure

/-- What is read behind a path is what the primary reads. -/
theorem primary_named {path : String} {e : Expr}
    (hnamed : ∀ budget start,
      Reads (named start path budget) setup ⟨input, depth⟩ e ⟨rest, depth⟩)
    (budget : Nat) :
    Reads (primary budget) setup ⟨.path path :: input, depth⟩ e ⟨rest, depth⟩ := by
  cases budget with
  | zero => exact .exhausted
  | succ budget => exact .peek (.offset fun start => .advance (hnamed budget start))

/-- Behind the path of a function, what its call reads is what the primary reads. -/
theorem primary_function {function : MathFunction} {path : String} {e : Expr}
    (hpath : function.IsSpelledBy path)
    (hcall : ∀ budget start, Reads (call start path function.name (Parser.arguments budget)) setup
      ⟨input, depth⟩ e ⟨rest, depth⟩) :
    ∀ budget, Reads (primary budget) setup ⟨.path path :: input, depth⟩ e ⟨rest, depth⟩ := by
  apply primary_named
  intro budget start
  cases budget with
  | zero => exact .exhausted
  | succ budget =>
      rw [named]
      simp only [functionName?_of_isSpelledBy hpath]
      exact hcall budget start

theorem primary_call {function : MathFunction} {path : String} {arguments : List Expr}
    (hpath : function.IsSpelledBy path) (harity : arguments.length = function.arity)
    (harguments : ∀ budget, Reads (Parser.arguments budget) setup ⟨input, depth⟩ arguments
      ⟨rest, depth⟩)
    (budget : Nat) :
    Reads (primary budget) setup ⟨.path path :: .symbol .leftParen :: input, depth⟩
      (.call function arguments) ⟨rest, depth⟩ := by
  refine primary_function hpath (fun budget start => ?_) budget
  simp only [call, MathFunction.ofName?_name]
  exact .accept ((harguments budget).bind (checkArity harity))

theorem primary_pi {path : String} (hpath : MathFunction.pi.IsSpelledBy path)
    (hnext : nextKind rest ≠ .symbol .leftParen) (budget : Nat) :
    Reads (primary budget) setup ⟨.path path :: rest, depth⟩ (.call .pi []) ⟨rest, depth⟩ := by
  refine primary_function hpath (fun budget start => ?_) budget
  have hcheck : Reads (Parser.checkArity start .pi []) setup ⟨rest, depth⟩ (.call .pi [])
      ⟨rest, depth⟩ := checkArity rfl
  simp only [call, MathFunction.ofName?_name]
  exact .notAccept hnext hcheck

/-- Behind the path of a value there is nothing, or there are empty parentheses. -/
theorem primary_value {scope : Scope} {path name : String} (hpath : scope.SpelledBy name path)
    (hparens : Reads emptyParens setup ⟨input, depth⟩ () ⟨rest, depth⟩) :
    ∀ budget, Reads (primary budget) setup ⟨.path path :: input, depth⟩ (.reference scope name)
      ⟨rest, depth⟩ := by
  apply primary_named
  intro budget start
  cases budget with
  | zero => exact .exhausted
  | succ budget =>
      rw [named]
      simp only [functionName?_of_spelledBy hpath, reference, scopedName?_eq_some_iff.2 hpath]
      exact hparens.bind .pure

theorem primary_reference {scope : Scope} {path name : String} (hpath : scope.SpelledBy name path)
    (hnext : nextKind rest ≠ .symbol .leftParen) (budget : Nat) :
    Reads (primary budget) setup ⟨.path path :: rest, depth⟩ (.reference scope name)
      ⟨rest, depth⟩ :=
  primary_value hpath (.notAccept hnext .pure) budget

theorem primary_emptyParens {scope : Scope} {path name : String}
    (hpath : scope.SpelledBy name path) (budget : Nat) :
    Reads (primary budget) setup
      ⟨.path path :: .symbol .leftParen :: .symbol .rightParen :: rest, depth⟩
      (.reference scope name) ⟨rest, depth⟩ :=
  primary_value hpath (.accept .expect) budget

/-! ### Lists -/

theorem arguments_nil (budget : Nat) :
    Reads (arguments budget) setup ⟨.symbol .rightParen :: rest, depth⟩ [] ⟨rest, depth⟩ := by
  cases budget with
  | zero => exact .exhausted
  | succ budget => exact .accept .pure

/-- Arguments are read as the first one and a step for each comma. -/
theorem arguments_some {first : Expr} {es : List Expr}
    (hopen : nextKind input ≠ .symbol .rightParen)
    (hfirst : ∀ budget, Reads (statement budget) setup ⟨input, depth⟩ first ⟨between, depth⟩)
    (hrepeats : ∀ budget, Repeats (argumentStep (statement budget)) setup [first]
      ⟨between, depth⟩ es ⟨.symbol .rightParen :: rest, depth⟩)
    (budget : Nat) :
    Reads (arguments budget) setup ⟨input, depth⟩ es ⟨rest, depth⟩ := by
  cases budget with
  | zero => exact .exhausted
  | succ budget =>
      have hstop : Reads (argumentStep (statement budget) es) setup
          ⟨.symbol .rightParen :: rest, depth⟩ none ⟨.symbol .rightParen :: rest, depth⟩ :=
        .notAccept nofun .pure
      refine .notAccept hopen ((hfirst budget).bind ?_)
      exact ((hrepeats budget).reads hstop nofun).bind (Reads.expect.bind .pure)

theorem argumentStep {statement : Parser Expr} {e : Expr} {es : List Expr}
    (hstatement : Reads statement setup ⟨input, depth⟩ e ⟨rest, depth⟩) :
    Reads (argumentStep statement es) setup ⟨.symbol .comma :: input, depth⟩ (some (es ++ [e]))
      ⟨rest, depth⟩ :=
  .accept (hstatement.bind .pure)

theorem statementStep {statement : Parser Expr} {symbol : Symbol} {e : Expr} {es : List Expr}
    (hsymbol : symbol ∈ [.semicolon, .comma]) (hopen : nextKind input ≠ .endOfInput)
    (hstatement : Reads statement setup ⟨input, depth⟩ e ⟨rest, depth⟩) :
    Reads (statementStep statement es) setup ⟨.symbol symbol :: input, depth⟩ (some (es ++ [e]))
      ⟨rest, depth⟩ := by
  have hseparator : isSeparator (.symbol symbol) = true := isSeparator_iff.2 ⟨symbol, rfl, hsymbol⟩
  refine .peek ?_
  simp only [nextKind_cons, hseparator, if_true]
  refine .advance (.peek ?_)
  simp only [if_neg hopen]
  exact hstatement.bind .pure

end Reads

end MotionScript.Parser
