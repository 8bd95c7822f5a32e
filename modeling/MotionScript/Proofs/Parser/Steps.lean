import MotionScript.Proofs.Parser.Run
/-!
# Runs that end with a value

What a step or a function of the grammar has done where it ends with a value, by the parsers it is
made of.  A loop keeps what each of its steps keeps.
-/

namespace MotionScript.Parser

variable {α : Type} {setup : Setup} {state state' : State}

/-- The operands of a level on a budget. -/
def operand (level : Level) (budget : Nat) : Parser Expr :=
  level.operand (fun tighter => chain tighter budget) (unary budget)

theorem operand_eq_chain {level tighter : Level} (htighter : level.tighter = some tighter)
    (budget : Nat) : operand level budget = chain tighter budget := by
  rw [operand, Level.operand, htighter]

theorem ternary_succ (budget : Nat) :
    ternary (budget + 1) = chained (chain .or budget) (conditionalStep (chain .or budget)) := rfl

theorem fold_succ (level : Level) (budget : Nat) : fold level (budget + 1) =
    chained (operand level budget) (operatorStep level (operand level budget)) := rfl

/-! ### What a run that ends with a value has done -/

/-- A step of a chain finds no operator of its level, or reads one with its right operand. -/
theorem operatorStep_cases {level : Level} {operand : Parser Expr} {left : Expr}
    {next : Option Expr}
    (hrun : operatorStep level operand left setup state = .done next state') :
    (level.operator? (nextKind state.kinds) = none ∧ next = none ∧ state = state') ∨
      ∃ operator right, level.operator? (nextKind state.kinds) = some operator ∧
        state.depth < setup.limit ∧
        operand setup state.advanced.entered = .done right state' ∧
        next = some (.binary operator left right) := by
  rw [operatorStep, peek_bind] at hrun
  cases hoperator : level.operator? (nextKind state.kinds) with
  | none =>
      simp only [hoperator] at hrun
      cases hrun
      exact Or.inl ⟨rfl, rfl, rfl⟩
  | some operator =>
      simp only [hoperator, advance_bind, bind_eq_done_iff] at hrun
      obtain ⟨_, entered, henter, right, last, hright, hlast⟩ := hrun
      obtain ⟨hdepth, rfl⟩ := enter_eq_done_iff.1 henter
      cases hlast
      exact Or.inr ⟨operator, right, rfl, hdepth, hright, rfl⟩

/-- A step of the conditional finds no question mark, or reads one with both branches. -/
theorem conditionalStep_cases {branch : Parser Expr} {condition : Expr} {next : Option Expr}
    (hrun : conditionalStep branch condition setup state = .done next state') :
    (nextKind state.kinds ≠ .symbol .question ∧ next = none ∧ state = state') ∨
      ∃ whenTrue between whenFalse, nextKind state.kinds = .symbol .question ∧
        state.depth < setup.limit ∧
        branch setup state.advanced.entered = .done whenTrue between ∧
        nextKind between.kinds = .symbol .colon ∧
        branch setup between.advanced = .done whenFalse state' ∧
        next = some (.conditional condition whenTrue whenFalse) := by
  rw [conditionalStep, accept_bind] at hrun
  split at hrun
  next hnext =>
    simp only [if_true, bind_eq_done_iff] at hrun
    obtain ⟨_, entered, henter, whenTrue, between, hwhenTrue, hrest⟩ := hrun
    obtain ⟨_, behind, hexpect, whenFalse, last, hwhenFalse, hlast⟩ := hrest
    obtain ⟨hdepth, rfl⟩ := enter_eq_done_iff.1 henter
    obtain ⟨hcolon, rfl⟩ := expect_eq_done_iff.1 hexpect
    cases hlast
    exact Or.inr ⟨whenTrue, between, whenFalse, hnext, hdepth, hwhenTrue, hcolon, hwhenFalse, rfl⟩
  next hnext =>
    cases hrun
    exact Or.inl ⟨hnext, rfl, rfl⟩

/-- A step of the argument list finds no comma, or reads one more argument. -/
theorem argumentStep_cases {statement : Parser Expr} {es : List Expr} {next : Option (List Expr)}
    (hrun : argumentStep statement es setup state = .done next state') :
    (nextKind state.kinds ≠ .symbol .comma ∧ next = none ∧ state = state') ∨
      ∃ e, nextKind state.kinds = .symbol .comma ∧
        statement setup state.advanced = .done e state' ∧ next = some (es ++ [e]) := by
  rw [argumentStep, accept_bind] at hrun
  split at hrun
  next hnext =>
    simp only [if_true, bind_eq_done_iff] at hrun
    obtain ⟨e, last, hstatement, hlast⟩ := hrun
    cases hlast
    exact Or.inr ⟨e, hnext, hstatement, rfl⟩
  next hnext =>
    cases hrun
    exact Or.inl ⟨hnext, rfl, rfl⟩

/-- A step of a program finds no separator, or one at its end, or reads one more statement. -/
theorem statementStep_cases {statement : Parser Expr} {es : List Expr} {next : Option (List Expr)}
    (hrun : statementStep statement es setup state = .done next state') :
    (isSeparator (nextKind state.kinds) = false ∧ next = none ∧ state = state') ∨
      (isSeparator (nextKind state.kinds) = true ∧ nextKind state.kinds.tail = .endOfInput ∧
        next = none ∧ state.advanced = state') ∨
      ∃ e, isSeparator (nextKind state.kinds) = true ∧
        statement setup state.advanced = .done e state' ∧ next = some (es ++ [e]) := by
  rw [statementStep, peek_bind] at hrun
  cases hseparator : isSeparator (nextKind state.kinds) with
  | false =>
      rw [hseparator] at hrun
      cases hrun
      exact Or.inl ⟨rfl, rfl, rfl⟩
  | true =>
      simp only [hseparator, if_true, advance_bind, peek_bind, kinds_advanced] at hrun
      split at hrun
      next hend =>
        cases hrun
        exact Or.inr (Or.inl ⟨rfl, hend, rfl, rfl⟩)
      next =>
        obtain ⟨e, last, hstatement, hlast⟩ := bind_eq_done_iff.1 hrun
        cases hlast
        exact Or.inr (Or.inr ⟨e, rfl, hstatement, rfl⟩)

/-- The name of an assignment is one that may be written to, and is not passed yet. -/
theorem target_cases {scope : Scope} {name : String}
    (hrun : target setup state = .done (scope, name) state') :
    ∃ path, nextKind state.kinds = .path path ∧ scopedName? path = some (scope, name) ∧
      scope.isWritable = true ∧ state = state' := by
  rw [target, peek_bind] at hrun
  cases hnext : nextKind state.kinds with
  | path path =>
      cases hscoped : scopedName? path with
      | none =>
          simp only [hnext, hscoped] at hrun
          exact absurd hrun fail_ne_done
      | some written =>
          simp only [hnext, hscoped] at hrun
          split at hrun
          next hwritable =>
            cases hrun
            exact ⟨path, rfl, hscoped, hwritable, rfl⟩
          next => exact absurd hrun fail_ne_done
  | _ =>
      simp only [hnext] at hrun
      exact absurd hrun fail_ne_done

variable {budget : Nat}

/-- A statement is an assignment or expression one level down. -/
theorem statement_cases {e : Expr}
    (hrun : statement (budget + 1) setup state = .done e state') :
    state.depth < setup.limit ∧ ∃ last : State, last.left = state' ∧
      assignment budget setup state.entered = .done e last := by
  rw [statement, bind_eq_done_iff] at hrun
  obtain ⟨_, entered, henter, hrest⟩ := hrun
  obtain ⟨hdepth, rfl⟩ := enter_eq_done_iff.1 henter
  obtain ⟨last, hbody, hlast⟩ := exists_of_leaving hrest
  exact ⟨hdepth, last, hlast, hbody⟩

/-- An assignment has a sign behind its target. All else is an expression. -/
theorem assignment_cases {e : Expr}
    (hrun : assignment (budget + 1) setup state = .done e state') :
    (assignment? (nextKind state.kinds.tail) = none ∧
        ternary budget setup state = .done e state') ∨
      ∃ operator scope name value path,
        assignment? (nextKind state.kinds.tail) = some operator ∧
        nextKind state.kinds = .path path ∧ scopedName? path = some (scope, name) ∧
        scope.isWritable = true ∧
        statement budget setup state.advanced.advanced = .done value state' ∧
        e = .assign operator scope name value := by
  rw [assignment, peekSecond_bind] at hrun
  cases hassignment : assignment? (nextKind state.kinds.tail) with
  | none =>
      simp only [hassignment] at hrun
      exact Or.inl ⟨rfl, hrun⟩
  | some operator =>
      simp only [hassignment] at hrun
      obtain ⟨⟨scope, name⟩, between, htarget, hvalue⟩ := bind_eq_done_iff.1 hrun
      obtain ⟨path, hpath, hscoped, hwritable, rfl⟩ := target_cases htarget
      simp only [advance_bind] at hvalue
      obtain ⟨value, last, hvalue, hlast⟩ := bind_eq_done_iff.1 hvalue
      cases hlast
      exact Or.inr ⟨operator, scope, name, value, path, rfl, hpath, hscoped, hwritable, hvalue, rfl⟩

theorem signed_cases {operator : UnaryOp} {operand : Parser Expr} {e : Expr}
    (hrun : signed operator operand setup state = .done e state') :
    state.depth < setup.limit ∧ ∃ inner last,
      operand setup state.advanced.entered = .done inner last ∧
      e = .unary operator inner ∧ last.left = state' := by
  rw [signed, advance_bind, bind_eq_done_iff] at hrun
  obtain ⟨_, entered, henter, hrest⟩ := hrun
  obtain ⟨hdepth, rfl⟩ := enter_eq_done_iff.1 henter
  obtain ⟨inner, left, hleaving, hlast⟩ := bind_eq_done_iff.1 hrest
  obtain ⟨last, hinner, rfl⟩ := exists_of_leaving hleaving
  cases hlast
  exact ⟨hdepth, inner, last, hinner, rfl, rfl⟩

/-- A prefix expression is signed, or starts with a plus that is dropped, or is a primary one. -/
theorem unary_cases {e : Expr} (hrun : unary (budget + 1) setup state = .done e state') :
    (∃ symbol operator, nextKind state.kinds = .symbol symbol ∧
        symbol.spelling = operator.spelling ∧
        signed operator (unary budget) setup state = .done e state') ∨
      (nextKind state.kinds = .symbol .plus ∧
        unary budget setup state.advanced = .done e state') ∨
      primary budget setup state = .done e state' := by
  rw [unary, peek_bind] at hrun
  cases hnext : nextKind state.kinds with
  | symbol symbol =>
      simp only [hnext] at hrun
      cases symbol with
      | minus => exact Or.inl ⟨.minus, .neg, rfl, rfl, hrun⟩
      | bang => exact Or.inl ⟨.bang, .not, rfl, rfl, hrun⟩
      | plus => exact Or.inr (Or.inl ⟨rfl, hrun⟩)
      | _ => exact Or.inr (Or.inr hrun)
  | _ =>
      simp only [hnext] at hrun
      exact Or.inr (Or.inr hrun)

theorem checkArity_cases {offset : Nat} {function : MathFunction} {arguments : List Expr} {e : Expr}
    (hrun : checkArity offset function arguments setup state = .done e state') :
    arguments.length = function.arity ∧ e = .call function arguments ∧ state = state' := by
  rw [checkArity] at hrun
  split at hrun
  next harity => cases hrun; exact ⟨harity, rfl, rfl⟩
  next => cases hrun

theorem emptyParens_cases {result : Unit}
    (hrun : emptyParens setup state = .done result state') :
    (nextKind state.kinds ≠ .symbol .leftParen ∧ state = state') ∨
      (nextKind state.kinds = .symbol .leftParen ∧
        nextKind state.kinds.tail = .symbol .rightParen ∧ state.advanced.advanced = state') := by
  rw [emptyParens, accept_bind] at hrun
  split at hrun
  next hopen =>
    simp only [if_true, expect_eq_done_iff, kinds_advanced] at hrun
    exact Or.inr ⟨hopen, hrun.1, hrun.2.symm⟩
  next hopen =>
    cases hrun
    exact Or.inl ⟨hopen, rfl⟩

/-- A call has the arguments of its function; `math.pi` may be called without parentheses. -/
theorem call_cases {start : Nat} {path name : String} {arguments : Parser (List Expr)} {e : Expr}
    (hrun : call start path name arguments setup state = .done e state') :
    ∃ function es, MathFunction.ofName? name = some function ∧
      es.length = function.arity ∧ e = .call function es ∧
      ((nextKind state.kinds = .symbol .leftParen ∧
          arguments setup state.advanced = .done es state') ∨
        (function = .pi ∧ es = [] ∧ state = state')) := by
  rw [call] at hrun
  cases hfunction : MathFunction.ofName? name with
  | none =>
      simp only [hfunction] at hrun
      cases hrun
  | some function =>
      simp only [hfunction, accept_bind] at hrun
      split at hrun
      next hopen =>
        simp only [if_true] at hrun
        obtain ⟨es, last, harguments, hcheck⟩ := bind_eq_done_iff.1 hrun
        obtain ⟨harity, he, rfl⟩ := checkArity_cases hcheck
        exact ⟨function, es, rfl, harity, he, Or.inl ⟨hopen, harguments⟩⟩
      next =>
        simp only [Bool.false_eq_true, if_false] at hrun
        split at hrun
        next hpi =>
          obtain ⟨harity, he, hstate⟩ := checkArity_cases hrun
          exact ⟨function, [], rfl, harity, he, Or.inr ⟨hpi, rfl, hstate⟩⟩
        next => exact absurd hrun fail_ne_done

theorem reference_cases {start : Nat} {path : String} {e : Expr}
    (hrun : reference start path setup state = .done e state') :
    ∃ scope name, scopedName? path = some (scope, name) ∧ e = .reference scope name ∧
      emptyParens setup state = .done () state' := by
  rw [reference] at hrun
  cases hscoped : scopedName? path with
  | none =>
      simp only [hscoped] at hrun
      cases hrun
  | some found =>
      obtain ⟨scope, name⟩ := found
      simp only [hscoped] at hrun
      obtain ⟨_, last, hparens, hlast⟩ := bind_eq_done_iff.1 hrun
      cases hlast
      exact ⟨scope, name, rfl, rfl, hparens⟩

/-- A path is the name of a function with its arguments, or a reference. -/
theorem named_cases {start : Nat} {path : String} {e : Expr}
    (hrun : named start path (budget + 1) setup state = .done e state') :
    (∃ name, functionName? path = some name ∧
        call start path name (arguments budget) setup state = .done e state') ∨
      ∃ scope name, scopedName? path = some (scope, name) ∧ e = .reference scope name ∧
        emptyParens setup state = .done () state' := by
  rw [named] at hrun
  cases hfunction : functionName? path with
  | some name =>
      simp only [hfunction] at hrun
      exact Or.inl ⟨name, rfl, hrun⟩
  | none =>
      simp only [hfunction] at hrun
      exact Or.inr (reference_cases hrun)

/-- A primary expression is a number, something in parentheses, or starts with a path. -/
theorem primary_cases {e : Expr} (hrun : primary (budget + 1) setup state = .done e state') :
    (∃ value, nextKind state.kinds = .number value ∧ e = .constant value ∧
        state.advanced = state') ∨
      (∃ last : State, nextKind state.kinds = .symbol .leftParen ∧
        statement budget setup state.advanced = .done e last ∧
        nextKind last.kinds = .symbol .rightParen ∧ last.advanced = state') ∨
      ∃ path start, nextKind state.kinds = .path path ∧
        named start path budget setup state.advanced = .done e state' := by
  rw [primary, peek_bind] at hrun
  cases hnext : nextKind state.kinds with
  | number value =>
      simp only [hnext] at hrun
      cases hrun
      exact Or.inl ⟨value, rfl, rfl, rfl⟩
  | path path =>
      simp only [hnext, offset_bind, advance_bind] at hrun
      exact Or.inr (Or.inr ⟨path, _, rfl, hrun⟩)
  | symbol symbol =>
      cases symbol with
      | leftParen =>
          simp only [hnext, advance_bind, bind_eq_done_iff] at hrun
          obtain ⟨e, last, hstatement, _, behind, hexpect, hlast⟩ := hrun
          obtain ⟨hclose, rfl⟩ := expect_eq_done_iff.1 hexpect
          cases hlast
          exact Or.inr (Or.inl ⟨last, rfl, hstatement, hclose, rfl⟩)
      | _ =>
          simp only [hnext] at hrun
          exact absurd hrun fail_ne_done
  | identifier name =>
      simp only [hnext] at hrun
      exact absurd hrun fail_ne_done
  | endOfInput =>
      simp only [hnext] at hrun
      exact absurd hrun fail_ne_done

/-- Arguments are none up to the parenthesis, or one and a loop over the others. -/
theorem arguments_cases {es : List Expr}
    (hrun : arguments (budget + 1) setup state = .done es state') :
    (nextKind state.kinds = .symbol .rightParen ∧ es = [] ∧ state.advanced = state') ∨
      ∃ first between last, statement budget setup state = .done first between ∧
        repeatStep (argumentStep (statement budget)) [first] setup between = .done es last ∧
        nextKind last.kinds = .symbol .rightParen ∧ last.advanced = state' := by
  rw [arguments, accept_bind] at hrun
  split at hrun
  next hclose =>
    cases hrun
    exact Or.inl ⟨hclose, rfl, rfl⟩
  next =>
    simp only [Bool.false_eq_true, if_false, bind_eq_done_iff] at hrun
    obtain ⟨first, between, hfirst, es, last, hloop, _, behind, hexpect, hlast⟩ := hrun
    obtain ⟨hclose, rfl⟩ := expect_eq_done_iff.1 hexpect
    cases hlast
    exact Or.inr ⟨first, between, last, hfirst, hloop, hclose, rfl⟩

/-- A program is a first statement, a loop over the others and the end of the input. -/
theorem program_cases {e : Expr} (hrun : program budget setup state = .done e state') :
    ∃ first between es last, statement budget setup state = .done first between ∧
      repeatStep (statementStep (statement budget)) [first] setup between = .done es last ∧
      nextKind last.kinds = .endOfInput ∧ last.advanced = state' ∧
      (es = [e] ∨ (es.length ≠ 1 ∧ e = .sequence es)) := by
  rw [program] at hrun
  obtain ⟨first, between, hfirst, hrest⟩ := bind_eq_done_iff.1 hrun
  obtain ⟨es, last, hloop, hrest⟩ := bind_eq_done_iff.1 hrest
  obtain ⟨_, behind, hexpect, hlast⟩ := bind_eq_done_iff.1 hrest
  obtain ⟨hend, rfl⟩ := expect_eq_done_iff.1 hexpect
  refine ⟨first, between, es, last, hfirst, hloop, hend, ?_⟩
  match es with
  | [] => cases hlast; exact ⟨rfl, Or.inr ⟨nofun, rfl⟩⟩
  | [single] => cases hlast; exact ⟨rfl, Or.inl rfl⟩
  | _ :: _ :: _ => cases hlast; exact ⟨rfl, Or.inr ⟨nofun, rfl⟩⟩

/-! ### What the steps of a loop keep -/

/-- A loop ends where it has made as many steps as it may, or where a step gives no new value. -/
theorem iterate_invariant {step : α → Parser (Option α)} {motive : α → State → Prop}
    (hstep : ∀ {value value' : α} {state state' : State}, motive value state →
      step value setup state = .done (some value') state' → motive value' state')
    {rounds : Nat} {value result : α} (hstart : motive value state)
    (hrun : iterate step rounds value setup state = .done result state') :
    ∃ last : State, motive result last ∧
      (last = state' ∨ step result setup last = .done none state') := by
  induction rounds generalizing value state with
  | zero =>
      cases hrun
      exact ⟨_, hstart, Or.inl rfl⟩
  | succ rounds ih =>
      rw [iterate, bind_eq_done_iff] at hrun
      obtain ⟨next, between, hnext, hrest⟩ := hrun
      cases next with
      | none =>
          cases hrest
          exact ⟨state, hstart, Or.inr hnext⟩
      | some next => exact ih (hstep hstart hnext) hrest

/-- What a loop keeps of the tokens that are left. -/
theorem iterate_keeps {step : α → Parser (Option α)} {motive : α → List Token.Kind → Prop}
    (hstep : ∀ {value value' : α} {state state' : State}, motive value state.kinds →
      step value setup state = .done (some value') state' → motive value' state'.kinds)
    {rounds : Nat} {value result : α} (hstart : motive value state.kinds)
    (hrun : iterate step rounds value setup state = .done result state') :
    ∃ last : State, motive result last.kinds ∧
      (last = state' ∨ step result setup last = .done none state') :=
  iterate_invariant (motive := fun value state => motive value state.kinds) hstep hstart hrun

/-- A chain that succeeds has read a first operand and gone through its loop. -/
theorem chained_cases {first : Parser α} {step : α → Parser (Option α)} {result : α}
    (hrun : chained first step setup state = .done result state') :
    ∃ value between last, first setup state = .done value between ∧
      repeatStep step value setup between = .done result last ∧
      state' = ⟨last.tokens, between.depth⟩ := by
  rw [chained, bind_eq_done_iff] at hrun
  obtain ⟨value, between, hvalue, hrest⟩ := hrun
  rw [depth_bind, bind_eq_done_iff] at hrest
  obtain ⟨found, last, hloop, hended⟩ := hrest
  cases hended
  exact ⟨value, between, last, hvalue, hloop, rfl⟩

/-- What holds of the first operand and is kept by each step holds of the whole chain. -/
theorem chained_keeps {first : Parser α} {step : α → Parser (Option α)}
    {motive : α → List Token.Kind → Prop}
    (hfirst : ∀ {value between}, first setup state = .done value between →
      motive value between.kinds)
    (hstep : ∀ {value value' : α} {state state' : State}, motive value state.kinds →
      step value setup state = .done (some value') state' → motive value' state'.kinds)
    (hstop : ∀ {value : α} {state state' : State},
      step value setup state = .done none state' → state = state')
    {result : α} (hrun : chained first step setup state = .done result state') :
    motive result state'.kinds := by
  obtain ⟨value, between, last, hvalue, hloop, rfl⟩ := chained_cases hrun
  obtain ⟨stop, hlast, hstopped⟩ := iterate_keeps hstep (hfirst hvalue) hloop
  obtain rfl : stop = last := hstopped.elim id hstop
  exact hlast

end MotionScript.Parser
