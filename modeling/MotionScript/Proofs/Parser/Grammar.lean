import MotionScript.Expr.Parser.Grammar
/-!
# The language of expressions

The grammar as a relation between an input, the tree that its head spells, and the rest behind it.
The relation knows nothing of nesting or of how far a parser looks ahead.  Chains of operators and
of conditionals are left-recursive, as the trees they spell lean to the left.
-/

namespace MotionScript

open MotionScript.Parser (Level)

/-- Whether a path is the name of a function behind the scope `math` or its letter. -/
def MathFunction.IsSpelledBy (function : MathFunction) (path : String) : Prop :=
  path = "math." ++ function.name ∨ path = "m." ++ function.name

/-- Whether a path is a name behind the keyword or the letter of its scope. -/
def Scope.SpelledBy (scope : Scope) (name path : String) : Prop :=
  path = scope.keyword ++ "." ++ name ∨ path = scope.letter ++ "." ++ name

/-- The operators that a level of chains is made of. -/
def Parser.Level.operators : Level → List BinaryOp
  | .or => [.or]
  | .and => [.and]
  | .equality => [.eq, .ne]
  | .comparison => [.lt, .le, .gt, .ge]
  | .term => [.add, .sub]
  | .factor => [.mul, .div, .mod]

namespace Grammar

/-- An input, of which a relation spells the head and leaves the rest. -/
abbrev Input : Type := List Token.Kind

mutual

/-- A statement stores the value of a statement under a name, or is a ternary. -/
inductive Statement : Input → Expr → Input → Prop where
  | assign {path : String} {symbol : Symbol} {operator : AssignOp} {scope : Scope} {name : String}
      {value : Expr} {input rest : Input}
      (hpath : scope.SpelledBy name path) (hwritable : scope = .variable ∨ scope = .temp)
      (hsymbol : symbol.spelling = operator.spelling) (hvalue : Statement input value rest) :
      Statement (.path path :: .symbol symbol :: input) (.assign operator scope name value) rest
  | ternary {e : Expr} {input rest : Input} (hternary : Ternary input e rest) :
      Statement input e rest

/-- A ternary is a chain of conditionals. -/
inductive Ternary : Input → Expr → Input → Prop where
  | chain {e : Expr} {input rest : Input} (hchain : Chain .or input e rest) :
      Ternary input e rest
  | conditional {condition whenTrue whenFalse : Expr} {input first second rest : Input}
      (hcondition : Ternary input condition (.symbol .question :: first))
      (hwhenTrue : Chain .or first whenTrue (.symbol .colon :: second))
      (hwhenFalse : Chain .or second whenFalse rest) :
      Ternary input (.conditional condition whenTrue whenFalse) rest

/-- A chain of a level joins operands by the operators of the level. -/
inductive Chain : Level → Input → Expr → Input → Prop where
  | operand {level : Level} {e : Expr} {input rest : Input}
      (hoperand : Operand level input e rest) :
      Chain level input e rest
  | binary {level : Level} {symbol : Symbol} {operator : BinaryOp} {left right : Expr}
      {input between rest : Input}
      (hoperator : operator ∈ level.operators) (hsymbol : symbol.spelling = operator.spelling)
      (hleft : Chain level input left (.symbol symbol :: between))
      (hright : Operand level between right rest) :
      Chain level input (.binary operator left right) rest

/-- An operand of a level is a chain of the tighter level, and unary at the tightest one. -/
inductive Operand : Level → Input → Expr → Input → Prop where
  | chain {level tighter : Level} {e : Expr} {input rest : Input}
      (htighter : level.tighter = some tighter) (hchain : Chain tighter input e rest) :
      Operand level input e rest
  | unary {e : Expr} {input rest : Input} (hunary : Unary input e rest) :
      Operand .factor input e rest

/-- A unary is a primary behind any number of signs, of which a plus leaves no trace. -/
inductive Unary : Input → Expr → Input → Prop where
  | operator {symbol : Symbol} {operator : UnaryOp} {operand : Expr} {input rest : Input}
      (hsymbol : symbol.spelling = operator.spelling) (hoperand : Unary input operand rest) :
      Unary (.symbol symbol :: input) (.unary operator operand) rest
  | plus {e : Expr} {input rest : Input} (hunary : Unary input e rest) :
      Unary (.symbol .plus :: input) e rest
  | primary {e : Expr} {input rest : Input} (hprimary : Primary input e rest) :
      Unary input e rest

/-- A primary is a number, a statement in parentheses, a call or a name. -/
inductive Primary : Input → Expr → Input → Prop where
  | number {value : Float32} {rest : Input} :
      Primary (.number value :: rest) (.constant value) rest
  | parentheses {e : Expr} {input rest : Input}
      (hstatement : Statement input e (.symbol .rightParen :: rest)) :
      Primary (.symbol .leftParen :: input) e rest
  | call {path : String} {function : MathFunction} {arguments : List Expr} {input rest : Input}
      (hpath : function.IsSpelledBy path) (harity : arguments.length = function.arity)
      (harguments : Statements [.comma] input arguments (.symbol .rightParen :: rest)) :
      Primary (.path path :: .symbol .leftParen :: input) (.call function arguments) rest
  | emptyCall {path : String} {function : MathFunction} {rest : Input}
      (hpath : function.IsSpelledBy path) (harity : function.arity = 0) :
      Primary (.path path :: .symbol .leftParen :: .symbol .rightParen :: rest)
        (.call function []) rest
  | pi {path : String} {rest : Input} (hpath : MathFunction.pi.IsSpelledBy path) :
      Primary (.path path :: rest) (.call .pi []) rest
  | reference {path : String} {scope : Scope} {name : String} {rest : Input}
      (hpath : scope.SpelledBy name path) :
      Primary (.path path :: rest) (.reference scope name) rest
  | emptyParens {path : String} {scope : Scope} {name : String} {rest : Input}
      (hpath : scope.SpelledBy name path) :
      Primary (.path path :: .symbol .leftParen :: .symbol .rightParen :: rest)
        (.reference scope name) rest

/-- One or more statements between separators. -/
inductive Statements : List Symbol → Input → List Expr → Input → Prop where
  | single {separators : List Symbol} {e : Expr} {input rest : Input}
      (hstatement : Statement input e rest) :
      Statements separators input [e] rest
  | append {separators : List Symbol} {symbol : Symbol} {es : List Expr} {e : Expr}
      {input between rest : Input} (hsymbol : symbol ∈ separators)
      (hstatements : Statements separators input es (.symbol symbol :: between))
      (hstatement : Statement between e rest) :
      Statements separators input (es ++ [e]) rest

end

/-- The end of a program, before which one separator may stand. -/
inductive Ending : Input → Prop where
  | plain : Ending [.endOfInput]
  | separated {symbol : Symbol} (hsymbol : symbol ∈ [.semicolon, .comma]) :
      Ending [.symbol symbol, .endOfInput]

/-- A program is its only statement, or the sequence of its statements. -/
inductive Program : Input → Expr → Prop where
  | single {e : Expr} {input rest : Input} (hstatement : Statement input e rest)
      (hending : Ending rest) : Program input e
  | several {es : List Expr} {input rest : Input}
      (hstatements : Statements [.semicolon, .comma] input es rest) (hmany : 1 < es.length)
      (hending : Ending rest) : Program input (.sequence es)

end Grammar

end MotionScript
