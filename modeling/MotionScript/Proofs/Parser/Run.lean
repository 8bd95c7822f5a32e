import MotionScript.Expr.Parser.Grammar
/-!
# Running parsers

The kinds of the tokens and the nesting are all that decides how a parser goes on; the places of
the tokens are only read for errors.  This module has one law for each building block.
-/

namespace MotionScript.Parser

variable {α β : Type} {setup : Setup} {state state' : State}

def State.kinds (state : State) : List Token.Kind :=
  state.tokens.map Token.kind

def State.advanced (state : State) : State :=
  ⟨state.tokens.tail, state.depth⟩

def State.entered (state : State) : State :=
  ⟨state.tokens, state.depth + 1⟩

def State.left (state : State) : State :=
  ⟨state.tokens, state.depth - 1⟩

/-- The kind at the head of an input, which has ended if nothing is left of it. -/
def nextKind (input : List Token.Kind) : Token.Kind :=
  input.head?.getD .endOfInput

@[simp]
theorem kinds_advanced (state : State) : state.advanced.kinds = state.kinds.tail :=
  List.map_tail

@[simp]
theorem depth_advanced (state : State) : state.advanced.depth = state.depth := rfl

@[simp]
theorem kinds_entered (state : State) : state.entered.kinds = state.kinds := rfl

@[simp]
theorem depth_entered (state : State) : state.entered.depth = state.depth + 1 := rfl

@[simp]
theorem kinds_left (state : State) : state.left.kinds = state.kinds := rfl

@[simp]
theorem depth_left (state : State) : state.left.depth = state.depth - 1 := rfl

@[simp]
theorem nextKind_cons (kind : Token.Kind) (input : List Token.Kind) :
    nextKind (kind :: input) = kind := rfl

theorem number_ne_end {value : Float32} : Token.Kind.number value ≠ .endOfInput := by
  rintro ⟨⟩

theorem path_ne_end {path : String} : Token.Kind.path path ≠ .endOfInput := by
  rintro ⟨⟩

theorem identifier_ne_end {name : String} : Token.Kind.identifier name ≠ .endOfInput := by
  rintro ⟨⟩

theorem symbol_ne_end {symbol : Symbol} : Token.Kind.symbol symbol ≠ .endOfInput := by
  rintro ⟨⟩

theorem eq_cons_of_nextKind {input : List Token.Kind} {kind : Token.Kind}
    (hnext : nextKind input = kind) (hkind : kind ≠ .endOfInput) :
    input = kind :: input.tail := by
  cases input with
  | nil => exact absurd hnext.symm hkind
  | cons head tail => exact congrArg (· :: tail) hnext

theorem nextKind_kinds (state : State) :
    (state.tokens.head?.map Token.kind).getD .endOfInput = nextKind state.kinds := by
  rw [nextKind, State.kinds, List.head?_map]

/-! ### Building blocks -/

theorem bind_apply (parser : Parser α) (next : α → Parser β) :
    (parser >>= next) setup state =
      match parser setup state with
      | .done value state => next value setup state
      | .failed error state => .failed error state
      | .exhausted => .exhausted := rfl

theorem bind_of_done {parser : Parser α} {value : α} (next : α → Parser β)
    (hrun : parser setup state = .done value state') :
    (parser >>= next) setup state = next value setup state' := by
  rw [bind_apply, hrun]

theorem bind_of_exhausted {parser : Parser α} (next : α → Parser β)
    (hrun : parser setup state = .exhausted) :
    (parser >>= next) setup state = .exhausted := by
  rw [bind_apply, hrun]

/-- A parse succeeds if its first part does and then the second one. -/
theorem bind_eq_done_iff {parser : Parser α} {next : α → Parser β} {result : β} :
    (parser >>= next) setup state = .done result state' ↔
      ∃ value between, parser setup state = .done value between ∧
        next value setup between = .done result state' := by
  constructor
  · intro hrun
    rw [bind_apply] at hrun
    split at hrun
    next value between hfirst => exact ⟨value, between, hfirst, hrun⟩
    next => cases hrun
    next => cases hrun
  · rintro ⟨value, between, hfirst, hnext⟩
    rw [bind_of_done next hfirst, hnext]

theorem peek_bind (next : Token.Kind → Parser α) :
    (peek >>= next) setup state = next (nextKind state.kinds) setup state := by
  rw [← nextKind_kinds]
  rfl

theorem peekSecond_bind (next : Token.Kind → Parser α) :
    (peekSecond >>= next) setup state = next (nextKind state.kinds.tail) setup state := by
  rw [← kinds_advanced, ← nextKind_kinds]
  rfl

theorem advance_bind (next : Unit → Parser α) :
    (advance >>= next) setup state = next () setup state.advanced := rfl

theorem offset_bind (next : Nat → Parser α) :
    (offset >>= next) setup state =
      next ((state.tokens.head?.map Token.start).getD setup.lastOffset) setup state := rfl

theorem depth_bind (next : Nat → Parser α) :
    (depth >>= next) setup state = next state.depth setup state := rfl

/-- What an error about the next token says. -/
theorem fail_apply (expected : Expected) :
    (fail expected : Parser α) setup state =
      .failed ⟨(state.tokens.head?.map Token.start).getD setup.lastOffset,
        .token (nextKind state.kinds), expected⟩ state := by
  rw [← nextKind_kinds]
  rfl

/-- Accepting a token goes on in one of two ways, as the next token says. -/
theorem accept_bind (kind : Token.Kind) (next : Bool → Parser α) :
    (accept kind >>= next) setup state =
      if nextKind state.kinds = kind then next true setup state.advanced
      else next false setup state := by
  have haccept : accept kind setup state =
      if nextKind state.kinds = kind then .done true state.advanced else .done false state := by
    rw [accept, peek_bind]
    split <;> rfl
  split
  next hkind =>
    rw [if_pos hkind] at haccept
    exact bind_of_done next haccept
  next hkind =>
    rw [if_neg hkind] at haccept
    exact bind_of_done next haccept

theorem expect_apply (kind : Token.Kind) (expected : Expected) :
    expect kind expected setup state =
      if nextKind state.kinds = kind then .done () state.advanced
      else fail expected setup state := by
  rw [expect, accept_bind]
  rfl

theorem enter_apply :
    enter setup state =
      if setup.limit < state.depth + 1 then fail (.nesting setup.limit) setup state.entered
      else .done () state.entered := by
  change (if setup.limit < state.depth + 1 then (fail (.nesting setup.limit) : Parser Unit)
    else pure ()) setup state.entered = _
  split <;> rfl

theorem leaving_apply (parser : Parser α) :
    leaving parser setup state =
      match parser setup state with
      | .done value state => .done value state.left
      | .failed error state => .failed error state.left
      | .exhausted => .exhausted := rfl

/-! ### Runs that end with a value -/

theorem fail_ne_done {expected : Expected} {value : α} :
    (fail expected : Parser α) setup state ≠ .done value state' := by
  rw [fail_apply]
  rintro ⟨⟩

theorem expect_eq_done_iff {kind : Token.Kind} {expected : Expected} {result : Unit} :
    expect kind expected setup state = .done result state' ↔
      nextKind state.kinds = kind ∧ state' = state.advanced := by
  rw [expect_apply]
  split
  next hnext =>
    rw [Outcome.done.injEq]
    exact ⟨fun hrun => ⟨hnext, hrun.2.symm⟩, fun hrun => ⟨rfl, hrun.2.symm⟩⟩
  next hnext =>
    exact ⟨fun hrun => absurd hrun fail_ne_done, fun hrun => absurd hrun.1 hnext⟩

/-- A level is entered exactly where the limit has not been reached. -/
theorem enter_eq_done_iff {result : Unit} :
    enter setup state = .done result state' ↔
      state.depth < setup.limit ∧ state' = state.entered := by
  rw [enter_apply]
  split
  next hdeep =>
    refine ⟨fun hrun => absurd hrun fail_ne_done, fun hrun => ?_⟩
    omega
  next hdepth =>
    rw [Outcome.done.injEq]
    exact ⟨fun hrun => ⟨by omega, hrun.2.symm⟩, fun hrun => ⟨rfl, hrun.2.symm⟩⟩

/-- A parse that leaves a level has succeeded inside it. -/
theorem exists_of_leaving {parser : Parser α} {value : α}
    (hrun : leaving parser setup state = .done value state') :
    ∃ last, parser setup state = .done value last ∧ last.left = state' := by
  rw [leaving_apply] at hrun
  split at hrun
  next value last hparser => cases hrun; exact ⟨last, hparser, rfl⟩
  next => cases hrun
  next => cases hrun

/-- Where a source text is accepted, its tokens are read to the end. -/
theorem exists_run_of_parseWithin {limit : Nat} {source : String} {e : Expr}
    (hparse : Expr.parseWithin limit source = .ok e) :
    ∃ tokens lastOffset state', tokenize source = .ok tokens ∧
      program (sufficientBudget tokens) ⟨limit, lastOffset⟩ ⟨tokens, 0⟩ = .done e state' := by
  unfold Expr.parseWithin Expr.ofTokens at hparse
  split at hparse
  · cases hparse
  next tokens htokens =>
    dsimp only at hparse
    split at hparse
    next found state' hrun =>
      cases hparse
      exact ⟨tokens, _, state', htokens, hrun⟩
    · cases hparse
    · cases hparse

end MotionScript.Parser
