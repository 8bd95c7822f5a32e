import MotionScript.Expr.Basic
import MotionScript.Expr.Parser.Basic
import MotionScript.Token.Scan
/-!
# The grammar

    program   := statement ((";" | ",") statement)* (";" | ",")? end
    statement := path ("=" | "+=" | "-=" | "*=" | "/=") statement | ternary
    ternary   := or ("?" or ":" or)*
    or        := and ("||" and)*            and, equality, comparison, term and factor likewise
    unary     := ("-" | "!") unary | "+" unary | primary
    primary   := number | "(" statement ")" | path ("(" arguments ")")?

Chains of operators and of conditionals lean to the left.  Every level of nesting is counted against
the limit: a statement, an operator before an operand, and each step of a chain until the chain
ends.

The functions call each other, and each call is made with a smaller budget of nested calls.  A level
of operators takes two calls: the chain of the level calls a fold, which calls the operands.  A call
without budget gives no answer; `Expr.ofTokens` starts with a budget that no stream uses up.
-/

namespace MotionScript

namespace Parser

variable {α : Type}

/-- The levels of operators between operands, from the loosest to the tightest. -/
inductive Level where
  | or | and | equality | comparison | term | factor
deriving DecidableEq

/-- The level of the operands of a level; the operands of the tightest one are unary. -/
def Level.tighter : Level → Option Level
  | .or => some .and
  | .and => some .equality
  | .equality => some .comparison
  | .comparison => some .term
  | .term => some .factor
  | .factor => none

def Level.operator? : Level → Token.Kind → Option BinaryOp
  | .or, .symbol .eitherTrue => some .or
  | .and, .symbol .bothTrue => some .and
  | .equality, .symbol .equal => some .eq
  | .equality, .symbol .notEqual => some .ne
  | .comparison, .symbol .less => some .lt
  | .comparison, .symbol .lessEqual => some .le
  | .comparison, .symbol .greater => some .gt
  | .comparison, .symbol .greaterEqual => some .ge
  | .term, .symbol .plus => some .add
  | .term, .symbol .minus => some .sub
  | .factor, .symbol .star => some .mul
  | .factor, .symbol .slash => some .div
  | .factor, .symbol .percent => some .mod
  | _, _ => none

def assignment? : Token.Kind → Option AssignOp
  | .symbol .assign => some .set
  | .symbol .plusAssign => some .add
  | .symbol .minusAssign => some .sub
  | .symbol .starAssign => some .mul
  | .symbol .slashAssign => some .div
  | _ => none

def isSeparator (kind : Token.Kind) : Bool :=
  kind == .symbol .semicolon || kind == .symbol .comma

/-! ### Paths -/

/-- The word before the first dot of a path and, if there is a dot, what stands behind it. -/
def splitPath (path : String) : String × Option String :=
  let word := path.toList.takeWhile (· != '.')
  match path.toList.drop word.length with
  | [] => (String.ofList word, none)
  | _ :: rest => (String.ofList word, some (String.ofList rest))

/-- The scope and the name that a path stands for. -/
def scopedName? (path : String) : Option (Scope × String) :=
  match splitPath path with
  | (word, some name) => (Scope.ofKeyword? word).map (·, name)
  | (_, none) => none

/-- The name of a function, if the path is one of the scope `math`. -/
def functionName? (path : String) : Option String :=
  let (word, name) := splitPath path
  if word = "math" ∨ word = "m" then some (name.getD "") else none

def target : Parser (Scope × String) := do
  match ← peek with
  | .path path =>
    match scopedName? path with
    | some (scope, name) =>
      if scope.isWritable then return (scope, name) else fail .writableTarget
    | none => fail .writableTarget
  | _ => fail .target

/-- A function by its name and the number of arguments that were given to it. -/
def checkArity (offset : Nat) (function : MathFunction) (arguments : List Expr) : Parser Expr :=
  if arguments.length = function.arity then pure (.call function arguments)
  else
    failAt offset (.arguments arguments.length function.name) (.arguments function.arity)

/-- The empty parentheses that may follow the name of a value. -/
def emptyParens : Parser Unit := do
  if ← accept (.symbol .leftParen) then expect (.symbol .rightParen) .noArguments

/-! ### Steps and pieces

What the functions of the grammar are put together from, over the parsers of their parts. -/

/-- A first operand, and steps until one of them gives no new value.  The nesting that the steps
have counted is given back. -/
def chained (first : Parser α) (step : α → Parser (Option α)) : Parser α := do
  let value ← first
  let base ← depth
  let result ← repeatStep step value
  setDepth base
  return result

def conditionalStep (branch : Parser Expr) (condition : Expr) : Parser (Option Expr) := do
  unless ← accept (.symbol .question) do return none
  enter
  let whenTrue ← branch
  expect (.symbol .colon) .colon
  let whenFalse ← branch
  return some (.conditional condition whenTrue whenFalse)

/-- The operands of a level, by what chains and unaries are. -/
def Level.operand (level : Level) (chain : Level → Parser Expr) (unary : Parser Expr) :
    Parser Expr :=
  match level.tighter with
  | some tighter => chain tighter
  | none => unary

def operatorStep (level : Level) (operand : Parser Expr) (left : Expr) : Parser (Option Expr) := do
  match level.operator? (← peek) with
  | none => return none
  | some operator =>
    advance
    enter
    let right ← operand
    return some (.binary operator left right)

/-- An operand behind a sign, which is one level of nesting. -/
def signed (operator : UnaryOp) (operand : Parser Expr) : Parser Expr := do
  advance
  enter
  return .unary operator (← leaving operand)

/-- A path of the scope `math`, behind the path. -/
def call (start : Nat) (path name : String) (arguments : Parser (List Expr)) : Parser Expr :=
  match MathFunction.ofName? name with
  | none => failAt start (.token (.path path)) .knownFunction
  | some function => do
    if ← accept (.symbol .leftParen) then
      let arguments ← arguments
      checkArity start function arguments
    else if function = .pi then
      checkArity start function []
    else
      fail (.callParen name)

/-- A path of any other scope, behind the path. -/
def reference (start : Nat) (path : String) : Parser Expr :=
  match scopedName? path with
  | none => failAt start (.token (.path path)) .knownScope
  | some (scope, name) => do
    emptyParens
    return .reference scope name

def argumentStep (statement : Parser Expr) (es : List Expr) : Parser (Option (List Expr)) := do
  unless ← accept (.symbol .comma) do return none
  let e ← statement
  return some (es ++ [e])

/-- One more statement of a program, unless the separator was the last one. -/
def statementStep (statement : Parser Expr) (es : List Expr) : Parser (Option (List Expr)) := do
  unless isSeparator (← peek) do return none
  advance
  if (← peek) = .endOfInput then return none
  let e ← statement
  return some (es ++ [e])

/-! ### The functions of the grammar -/

mutual

/-- A statement, which is one level of nesting. -/
def statement : Nat → Parser Expr
  | 0 => exhausted
  | budget + 1 => do
    enter
    leaving (assignment budget)

/-- A statement on the level that it has entered: the second token tells an assignment. -/
def assignment : Nat → Parser Expr
  | 0 => exhausted
  | budget + 1 => do
    match assignment? (← peekSecond) with
    | none => ternary budget
    | some operator =>
      let (scope, name) ← target
      advance
      advance
      let value ← statement budget
      return .assign operator scope name value

def ternary : Nat → Parser Expr
  | 0 => exhausted
  | budget + 1 => chained (chain .or budget) (conditionalStep (chain .or budget))

/-- A chain of the operators of a level, which a fold reads. -/
def chain (level : Level) : Nat → Parser Expr
  | 0 => exhausted
  | budget + 1 => fold level budget

def fold (level : Level) : Nat → Parser Expr
  | 0 => exhausted
  | budget + 1 =>
    let operand := level.operand (fun tighter => chain tighter budget) (unary budget)
    chained operand (operatorStep level operand)

def unary : Nat → Parser Expr
  | 0 => exhausted
  | budget + 1 => do
    match ← peek with
    | .symbol .minus => signed .neg (unary budget)
    | .symbol .bang => signed .not (unary budget)
    | .symbol .plus =>
      advance
      unary budget
    | _ => primary budget

def primary : Nat → Parser Expr
  | 0 => exhausted
  | budget + 1 => do
    match ← peek with
    | .number value =>
      advance
      return .constant value
    | .symbol .leftParen =>
      advance
      let e ← statement budget
      expect (.symbol .rightParen) .closingParen
      return e
    | .path path =>
      let start ← offset
      advance
      named start path budget
    | .identifier _ => fail .scopedName
    | _ => fail .expression

/-- What a path stands for, behind the path. -/
def named (start : Nat) (path : String) : Nat → Parser Expr
  | 0 => exhausted
  | budget + 1 =>
    match functionName? path with
    | some name => call start path name (arguments budget)
    | none => reference start path

/-- The arguments of a call, up to and with the parenthesis that ends them. -/
def arguments : Nat → Parser (List Expr)
  | 0 => exhausted
  | budget + 1 => do
    if ← accept (.symbol .rightParen) then return []
    let first ← statement budget
    let es ← repeatStep (argumentStep (statement budget)) [first]
    expect (.symbol .rightParen) .moreArguments
    return es

end

/-- A program: one statement, or a sequence of several. -/
def program (budget : Nat) : Parser Expr := do
  let first ← statement budget
  let es ← repeatStep (statementStep (statement budget)) [first]
  expect .endOfInput .endOfInput
  match es with
  | [e] => return e
  | es => return .sequence es

/-- A budget of nested calls that a stream of tokens does not use up: fewer than twenty calls lie
between one token and the next. -/
def sufficientBudget (tokens : List Token) : Nat :=
  20 * (tokens.length + 1)

end Parser

open MotionScript.Parser in
/-- The expression that a stream of tokens stands for.  What follows the first end of the input is
not looked at. -/
def Expr.ofTokens (limit : Nat) (tokens : List Token) : Except ParseError Expr :=
  let lastOffset := (tokens.getLast?.map Token.start).getD 0
  match program (sufficientBudget tokens) ⟨limit, lastOffset⟩ ⟨tokens, 0⟩ with
  | .done e _ => .ok e
  | .failed error _ => .error error
  | .exhausted => .error ⟨lastOffset, .token .endOfInput, .nesting limit⟩

/-- The deepest nesting that is accepted where no limit is given. -/
def Expr.defaultLimit : Nat := 128

/-- The expression that a source text stands for, nested no deeper than a limit. -/
def Expr.parseWithin (limit : Nat) (source : String) : Except LoadError Expr :=
  match tokenize source with
  | .error error => .error (.lex error)
  | .ok tokens => (ofTokens limit tokens).mapError .parse

def Expr.parse (source : String) : Except LoadError Expr :=
  parseWithin defaultLimit source

end MotionScript
