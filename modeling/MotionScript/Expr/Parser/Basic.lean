import MotionScript.Error
/-!
# Reading tokens

A parser reads tokens from the left and keeps count of how deeply the expression at hand is nested.
It ends with a value, with an error, or without an answer because its budget of nested calls is
used up.  An error keeps the state in which it was raised.
-/

namespace MotionScript

namespace Parser

/-- What stays the same while a stream of tokens is read. -/
structure Setup where
  /-- The deepest nesting that is accepted. -/
  limit : Nat
  /-- The place of errors that are met after the last token. -/
  lastOffset : Nat

/-- The tokens that are still to be read, and the nesting of the place they are read at. -/
structure State where
  tokens : List Token
  depth : Nat

inductive Outcome (α : Type) where
  | done (value : α) (state : State)
  | failed (error : ParseError) (state : State)
  | exhausted

end Parser

/-- A program that reads tokens. -/
def Parser (α : Type) : Type :=
  Parser.Setup → Parser.State → Parser.Outcome α

namespace Parser

variable {α β : Type}

instance : Monad Parser where
  pure value := fun _ state => .done value state
  bind parser next := fun setup state =>
    match parser setup state with
    | .done value state => next value setup state
    | .failed error state => .failed error state
    | .exhausted => .exhausted

def exhausted : Parser α := fun _ _ => .exhausted

/-- The kind of the next token, the end of the input if there is none. -/
def peek : Parser Token.Kind := fun _ state =>
  .done ((state.tokens.head?.map Token.kind).getD .endOfInput) state

def peekSecond : Parser Token.Kind := fun _ state =>
  .done ((state.tokens.tail.head?.map Token.kind).getD .endOfInput) state

/-- The place of the next token, or of the last one if all are read. -/
def offset : Parser Nat := fun setup state =>
  .done ((state.tokens.head?.map Token.start).getD setup.lastOffset) state

def advance : Parser Unit := fun _ state =>
  .done () { state with tokens := state.tokens.tail }

/-- Raises an error at a place of its own. -/
def failAt (offset : Nat) (found : Found) (expected : Expected) : Parser α := fun _ state =>
  .failed ⟨offset, found, expected⟩ state

def fail (expected : Expected) : Parser α := do
  failAt (← offset) (.token (← peek)) expected

/-- Moves past the next token if it is a given one, and says whether it was. -/
def accept (kind : Token.Kind) : Parser Bool := do
  if (← peek) = kind then
    advance
    return true
  else
    return false

/-- Moves past a token that has to come next. -/
def expect (kind : Token.Kind) (expected : Expected) : Parser Unit := do
  unless ← accept kind do fail expected

/-! ### Nesting -/

def depth : Parser Nat := fun _ state =>
  .done state.depth state

/-- Returns to the nesting of an earlier place. -/
def setDepth (depth : Nat) : Parser Unit := fun _ state =>
  .done () { state with depth }

/-- Goes one level deeper.  The level is counted even where it is one too many. -/
def enter : Parser Unit := do
  let level := (← depth) + 1
  setDepth level
  let limit : Nat ← fun setup state => .done setup.limit state
  if limit < level then fail (.nesting limit)

/-- Goes one level up after a parser has ended, by a value or by an error. -/
def leaving (parser : Parser α) : Parser α := fun setup state =>
  match parser setup state with
  | .done value state => .done value { state with depth := state.depth - 1 }
  | .failed error state => .failed error { state with depth := state.depth - 1 }
  | .exhausted => .exhausted

/-! ### Repetition -/

/-- Repeats a step at most `rounds` times, until it gives no new value. -/
def iterate (step : α → Parser (Option α)) : Nat → α → Parser α
  | 0, value => pure value
  | rounds + 1, value => do
    match ← step value with
    | some value => iterate step rounds value
    | none => return value

/-- Repeats a step until it gives no new value.  Every step that gives one has to read a token, so
there are no more steps than tokens. -/
def repeatStep (step : α → Parser (Option α)) (value : α) : Parser α := fun setup state =>
  iterate step state.tokens.length value setup state

end Parser

end MotionScript
