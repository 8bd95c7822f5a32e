import MotionScript.Expr.Printer
import MotionScript.Proofs.Expr.WellFormed
/-!
# The tokens of a text that was printed

Around every compound expression there are parentheses and around every operator between operands
there are blanks, so no lexeme of the text runs into the next one, and the text of an expression is
scanned as the tokens of its parts wherever it stands.
-/

namespace MotionScript

namespace Token

/-- In front of whatever closes it, the text is scanned as tokens of these kinds. -/
def ScansAs (text : List Char) (kinds : List Kind) : Prop :=
  ∀ rest more, Closes rest → Scans rest more → Scans (text ++ rest) (kinds ++ more)

/-- The text is scanned as tokens of these kinds, also behind a symbol. -/
structure Spells (text : List Char) (kinds : List Kind) : Prop where
  scans : ScansAs text kinds
  apart : ∀ rest, Apart (text ++ rest)

/-- The text is scanned as tokens of these kinds, also behind a name or a numeral. -/
structure Continues (text : List Char) (kinds : List Kind) : Prop where
  scans : ScansAs text kinds
  closes : ∀ rest, Closes rest → Closes (text ++ rest)

variable {text left right : List Char} {kinds leftKinds rightKinds : List Kind} {symbol : Symbol}

theorem closes_blank : Closes (' ' :: text) := by
  rintro c ⟨rfl⟩
  exact ⟨by decide, rfl⟩

theorem ScansAs.blank (hscans : ScansAs text kinds) : ScansAs (' ' :: text) kinds :=
  fun rest more hcloses hrest => (hscans rest more hcloses hrest).blank rfl

theorem ScansAs.append (hleft : ScansAs left leftKinds) (hright : Continues right rightKinds) :
    ScansAs (left ++ right) (leftKinds ++ rightKinds) := by
  intro rest more hcloses hrest
  rw [List.append_assoc, List.append_assoc]
  exact hleft _ _ (hright.closes rest hcloses) (hright.scans rest more hcloses hrest)

/-- A text may be followed by one that closes it. -/
theorem Spells.append (hleft : Spells left leftKinds) (hright : Continues right rightKinds) :
    Spells (left ++ right) (leftKinds ++ rightKinds) where
  scans := hleft.scans.append hright
  apart rest := by
    rw [List.append_assoc]
    exact hleft.apart _

theorem Spells.blank (hscans : ScansAs text kinds) : Spells (' ' :: text) kinds where
  scans := hscans.blank
  apart _ := closes_blank.apart

theorem Continues.nil : Continues [] [] where
  scans _ _ _ hrest := hrest
  closes _ hcloses := hcloses

theorem Continues.blank (hscans : ScansAs text kinds) : Continues (' ' :: text) kinds where
  scans := hscans.blank
  closes _ _ := closes_blank

theorem Continues.append (hleft : Continues left leftKinds) (hright : Continues right rightKinds) :
    Continues (left ++ right) (leftKinds ++ rightKinds) where
  scans := hleft.scans.append hright
  closes rest hcloses := by
    rw [List.append_assoc]
    exact hleft.closes _ (hright.closes rest hcloses)

/-! ### Symbols -/

theorem Spells.scans_symbol (hspells : Spells text kinds) :
    ScansAs (symbol.spelling.toList ++ text) (.symbol symbol :: kinds) := by
  intro rest more hcloses hrest
  rw [List.append_assoc]
  exact (hspells.scans rest more hcloses hrest).symbol (hspells.apart rest)

theorem Spells.behind (hspells : Spells text kinds)
    (hsymbol : ∀ rest, Apart (symbol.spelling.toList ++ rest)) :
    Spells (symbol.spelling.toList ++ text) (.symbol symbol :: kinds) where
  scans := hspells.scans_symbol
  apart rest := by
    rw [List.append_assoc]
    exact hsymbol _

theorem Spells.continues (hspells : Spells text kinds)
    (hsymbol : ∀ rest, Closes (symbol.spelling.toList ++ rest)) :
    Continues (symbol.spelling.toList ++ text) (.symbol symbol :: kinds) where
  scans := hspells.scans_symbol
  closes rest _ := by
    rw [List.append_assoc]
    exact hsymbol _

theorem Continues.rightParen : Continues [')'] [.symbol .rightParen] where
  scans rest more hcloses hrest :=
    have hscans : Scans (Symbol.rightParen.spelling.toList ++ rest) _ := hrest.symbol hcloses.apart
    hscans
  closes rest _ := by
    rintro c ⟨rfl⟩
    exact ⟨by decide, rfl⟩

theorem Spells.parenthesized (hspells : Spells text kinds) :
    Spells ('(' :: (text ++ [')'])) (.symbol .leftParen :: (kinds ++ [.symbol .rightParen])) := by
  have hopen : ∀ rest, Apart (Symbol.leftParen.spelling.toList ++ rest) := by
    rintro rest c ⟨rfl⟩
    decide
  exact (hspells.append .rightParen).behind hopen

/-- An operator with blanks around it. -/
theorem Spells.between (symbol : Symbol) (hleft : Spells left leftKinds)
    (hright : Spells right rightKinds) :
    Spells (left ++ ' ' :: (symbol.spelling.toList ++ ' ' :: right))
      (leftKinds ++ .symbol symbol :: rightKinds) :=
  hleft.append (.blank (Spells.blank hright.scans).scans_symbol)

theorem Spells.arguments (hspells : Spells text kinds) :
    Continues ('(' :: (text ++ [')']))
      (.symbol .leftParen :: (kinds ++ [.symbol .rightParen])) where
  scans := hspells.parenthesized.scans
  closes _ _ := by
    rintro c ⟨rfl⟩
    exact ⟨by decide, rfl⟩

theorem closes_comma (rest : List Char) : Closes (Symbol.comma.spelling.toList ++ rest) := by
  rintro c ⟨rfl⟩
  exact ⟨by decide, rfl⟩

theorem closes_semicolon (rest : List Char) :
    Closes (Symbol.semicolon.spelling.toList ++ rest) := by
  rintro c ⟨rfl⟩
  exact ⟨by decide, rfl⟩

/-! ### Names and numbers -/

/-- A dotted name spells itself. -/
theorem Spells.path {path : String} (hname : isName path.toList = true)
    (hdot : '.' ∈ path.toList) : Spells path.toList [.path path] where
  scans _ _ hcloses hrest := hrest.path hname hdot hcloses
  apart rest := by
    cases hpath : path.toList with
    | nil => rw [hpath] at hname; cases hname
    | cons first tail =>
        rw [hpath, isName, Bool.and_eq_true] at hname
        rintro c ⟨rfl⟩
        exact not_mem_of_isNameChar (isNameChar_of_isNameStart hname.1)

/-- A finite constant without a sign spells itself. -/
theorem Spells.number {value : Float32} (hfinite : value.isFinite = true)
    (hsign : Single.isNegative value = false) :
    Spells (Single.plainText value).toList [.number value] := by
  obtain ⟨numeral, hplain, htext, rfl⟩ := Single.plainText_numeral hfinite hsign
  rw [htext]
  refine ⟨fun _ _ hcloses hrest => hrest.number hplain hfinite hcloses, fun rest => ?_⟩
  obtain ⟨first, lexeme, hlexeme, hdigit⟩ := hplain.exists_digit
  rw [hlexeme]
  rintro c ⟨rfl⟩
  exact not_mem_of_isNameChar (isNameChar_of_isDigit hdigit)

end Token

theorem MathFunction.arity_ne_zero {function : MathFunction} (hpi : function ≠ .pi) :
    function.arity ≠ 0 := by
  cases function <;> first | exact absurd rfl hpi | decide

/-! ### Symbols of the operators -/

def UnaryOp.symbol : UnaryOp → Symbol
  | .neg => .minus
  | .not => .bang

def BinaryOp.symbol : BinaryOp → Symbol
  | .add => .plus
  | .sub => .minus
  | .mul => .star
  | .div => .slash
  | .mod => .percent
  | .eq => .equal
  | .ne => .notEqual
  | .lt => .less
  | .le => .lessEqual
  | .gt => .greater
  | .ge => .greaterEqual
  | .and => .bothTrue
  | .or => .eitherTrue

def AssignOp.symbol : AssignOp → Symbol
  | .set => .assign
  | .add => .plusAssign
  | .sub => .minusAssign
  | .mul => .starAssign
  | .div => .slashAssign

theorem UnaryOp.spelling_symbol (operator : UnaryOp) :
    operator.symbol.spelling = operator.spelling := by
  cases operator <;> rfl

theorem BinaryOp.spelling_symbol (operator : BinaryOp) :
    operator.symbol.spelling = operator.spelling := by
  cases operator <;> rfl

theorem AssignOp.spelling_symbol (operator : AssignOp) :
    operator.symbol.spelling = operator.spelling := by
  cases operator <;> rfl

namespace Expr

open Token (Kind Spells Continues closes_comma closes_semicolon)

/-! ### The tokens of an expression -/

def parenthesized (kinds : List Kind) : List Kind :=
  .symbol .leftParen :: (kinds ++ [.symbol .rightParen])

def constantKinds (value : Float32) : List Kind :=
  if value.isNaN then parenthesized [.number 0, .symbol .slash, .number 0]
  else if value.isInf then
    if Single.isNegative value then
      parenthesized [.symbol .minus, .number 1, .symbol .slash, .number 0]
    else parenthesized [.number 1, .symbol .slash, .number 0]
  else if Single.isNegative value then parenthesized [.symbol .minus, .number (-value)]
  else [.number value]

mutual

/-- The tokens of the text of an expression inside another one. -/
def kinds : Expr → List Kind
  | .constant value => constantKinds value
  | .reference scope name => [.path (nameText scope name)]
  | .unary operator operand => parenthesized (.symbol operator.symbol :: operand.kinds)
  | .binary operator left right =>
    parenthesized (left.kinds ++ .symbol operator.symbol :: right.kinds)
  | .conditional condition whenTrue whenFalse =>
    parenthesized (condition.kinds ++ .symbol .question ::
      (whenTrue.kinds ++ .symbol .colon :: whenFalse.kinds))
  | .assign operator scope name value =>
    parenthesized (.path (nameText scope name) :: .symbol operator.symbol :: value.kinds)
  | .sequence statements => parenthesized (kindsBehind .semicolon statements).tail
  | .call .pi _ => [.path MathFunction.pi.qualifiedName]
  | .call function arguments =>
    .path function.qualifiedName :: parenthesized (kindsBehind .comma arguments).tail

/-- The tokens of the texts of expressions, with a separator before each of them. -/
def kindsBehind (separator : Symbol) : List Expr → List Kind
  | [] => []
  | e :: es => .symbol separator :: (e.kinds ++ kindsBehind separator es)

end

/-! ### Leaves -/

theorem isName_nameText {scope : Scope} {name : String} (hname : Token.isName name.toList = true) :
    Token.isName (nameText scope name).toList = true := by
  have hpath : scope.SpelledBy name (nameText scope name) := Or.inl rfl
  rwa [Token.isName_of_spelledBy hpath]

theorem spells_nameText {scope : Scope} {name : String}
    (hname : Token.isName name.toList = true) :
    Spells (nameText scope name).toList [.path (nameText scope name)] := by
  refine .path (isName_nameText hname) ?_
  rw [nameText, String.toList_append, String.toList_append]
  simp

theorem spells_qualifiedName (function : MathFunction) :
    Spells function.qualifiedName.toList [.path function.qualifiedName] := by
  refine .path ?_ ?_
  · cases function <;> decide +kernel
  · rw [MathFunction.qualifiedName, String.toList_append]
    simp

theorem spells_zero : Spells ['0'] [.number 0] := by
  have hspells : Spells (Single.plainText 0).toList [.number 0] := .number rfl rfl
  exact hspells

theorem spells_one : Spells ['1'] [.number 1] := by
  have hspells : Spells (Single.plainText 1).toList [.number 1] := .number rfl rfl
  exact hspells

/-- A prefix operator stands apart from its operand. -/
theorem spells_operand (operator : UnaryOp) {text : List Char} {kinds : List Kind}
    (hspells : Spells text kinds) :
    Spells (operator.spelling.toList ++ text) (.symbol operator.symbol :: kinds) := by
  rw [← operator.spelling_symbol]
  apply hspells.behind
  intro rest
  cases operator
  · rintro c ⟨rfl⟩
    decide
  · rintro c ⟨rfl⟩
    decide

/-- A constant spells a number, a negated number or, where it is not finite, a quotient. -/
theorem spells_constantText (value : Float32) :
    Spells (constantText value).toList (constantKinds value) := by
  unfold constantText constantKinds
  split
  next hnan => exact .parenthesized (.between .slash spells_zero spells_zero)
  next hnumber =>
    split
    next hinfinite =>
      split
      next hsign =>
        have hone : Spells ['-', '1'] [.symbol .minus, .number 1] :=
          spells_operand .neg spells_one
        exact .parenthesized (.between .slash hone spells_zero)
      next hsign => exact .parenthesized (.between .slash spells_one spells_zero)
    next hbounded =>
      have hfinite : value.isFinite = true := by
        rw [Single.isFinite_iff, ← Bool.not_eq_true, ← Bool.not_eq_true]
        exact ⟨hnumber, hbounded⟩
      split
      next hsign =>
        have hoperand : Spells (Single.plainText (-value)).toList [.number (-value)] :=
          .number ((Single.isFinite_neg value).trans hfinite) (Single.isNegative_neg hsign)
        have hnegation : Spells ('-' :: (Single.plainText (-value)).toList)
            [.symbol .minus, .number (-value)] := spells_operand .neg hoperand
        rw [String.toList_append, String.toList_append]
        exact hnegation.parenthesized
      next hsign => exact .number hfinite (Bool.eq_false_iff.2 hsign)

/-! ### Compound expressions -/

theorem inner_call {function : MathFunction} {arguments : List Expr} (hpi : function ≠ .pi) :
    inner (.call function arguments) =
      function.qualifiedName ++ "(" ++ innerList ", " arguments ++ ")" := by
  rw [inner]
  exact hpi

theorem kinds_call {function : MathFunction} {arguments : List Expr} (hpi : function ≠ .pi) :
    kinds (.call function arguments) =
      .path function.qualifiedName :: parenthesized (kindsBehind .comma arguments).tail := by
  rw [kinds]
  exact hpi

theorem toList_innerList (separator : Symbol) (e : Expr) (es : List Expr) :
    (innerList (separator.spelling ++ " ") (e :: es)).toList = e.inner.toList ++
      es.flatMap fun e => separator.spelling.toList ++ ' ' :: e.inner.toList := by
  induction es generalizing e with
  | nil => simp [innerList]
  | cons next es ih => simp [innerList, ih]

/-- Each text of a list closes the one before it, since a separator stands between them. -/
theorem continues_list {separator : Symbol} {es : List Expr}
    (hseparator : ∀ rest, Token.Closes (separator.spelling.toList ++ rest))
    (hspells : ∀ e ∈ es, Spells e.inner.toList e.kinds) :
    Continues (es.flatMap fun e => separator.spelling.toList ++ ' ' :: e.inner.toList)
      (kindsBehind separator es) := by
  induction es with
  | nil => exact .nil
  | cons e es ih =>
      obtain ⟨hhead, htail⟩ := List.forall_mem_cons.1 hspells
      exact ((Spells.blank hhead.scans).continues hseparator).append (ih htail)

theorem spells_list {separator : Symbol} {e : Expr} {es : List Expr}
    (hseparator : ∀ rest, Token.Closes (separator.spelling.toList ++ rest))
    (hspells : ∀ e' ∈ e :: es, Spells e'.inner.toList e'.kinds) :
    Spells (innerList (separator.spelling ++ " ") (e :: es)).toList
      (kindsBehind separator (e :: es)).tail := by
  obtain ⟨hhead, htail⟩ := List.forall_mem_cons.1 hspells
  rw [toList_innerList]
  exact hhead.append (continues_list hseparator htail)

/-- The printed text of a nested expression scans to its tokens: the parentheses and blanks keep its
parts apart. -/
theorem Nested.spells {e : Expr} (hnested : Nested e) : Spells e.inner.toList e.kinds := by
  induction hnested with
  | constant => exact spells_constantText _
  | reference hname => exact spells_nameText hname
  | @unary operator operand _ ih =>
      have htext : (Expr.unary operator operand).inner.toList =
          '(' :: ((operator.spelling.toList ++ operand.inner.toList) ++ [')']) := by
        simp [inner]
      rw [htext]
      exact (spells_operand operator ih).parenthesized
  | @binary operator left right _ _ ihLeft ihRight =>
      have htext : (Expr.binary operator left right).inner.toList =
          '(' :: ((left.inner.toList ++
            ' ' :: (operator.symbol.spelling.toList ++ ' ' :: right.inner.toList)) ++ [')']) := by
        simp [inner, operator.spelling_symbol]
      rw [htext]
      exact (ihLeft.between operator.symbol ihRight).parenthesized
  | @conditional condition whenTrue whenFalse _ _ _ ihCondition ihTrue ihFalse =>
      have htext : (Expr.conditional condition whenTrue whenFalse).inner.toList =
          '(' :: ((condition.inner.toList ++
            ' ' :: (Symbol.question.spelling.toList ++ ' ' :: (whenTrue.inner.toList ++
              ' ' :: (Symbol.colon.spelling.toList ++ ' ' :: whenFalse.inner.toList)))) ++
            [')']) := by
        simp [inner, Symbol.spelling]
      rw [htext]
      exact (ihCondition.between .question (ihTrue.between .colon ihFalse)).parenthesized
  | @assign operator scope name value _ hname _ ih =>
      have htext : (Expr.assign operator scope name value).inner.toList =
          '(' :: (((nameText scope name).toList ++
            ' ' :: (operator.symbol.spelling.toList ++ ' ' :: value.inner.toList)) ++ [')']) := by
        simp [inner, operator.spelling_symbol]
      rw [htext]
      exact ((spells_nameText hname).between operator.symbol ih).parenthesized
  | @call function arguments harity _ ih =>
      by_cases hpi : function = .pi
      · rw [hpi]
        exact spells_qualifiedName .pi
      · cases arguments with
        | nil => exact absurd harity.symm (MathFunction.arity_ne_zero hpi)
        | cons e es =>
            have hlist : Spells (innerList ", " (e :: es)).toList
                (kindsBehind .comma (e :: es)).tail := spells_list closes_comma ih
            have htext : (Expr.call function (e :: es)).inner.toList =
                function.qualifiedName.toList ++
                  '(' :: ((innerList ", " (e :: es)).toList ++ [')']) := by
              rw [inner_call hpi]
              simp
            rw [htext, kinds_call hpi]
            exact (spells_qualifiedName function).append hlist.arguments


/-! ### Programs -/

def programKinds : Expr → List Kind
  | .sequence statements => (kindsBehind .semicolon statements).tail
  | e => e.kinds

theorem Nested.text_eq {e : Expr} (hnested : Nested e) : e.text = e.inner := by
  cases hnested <;> rfl

theorem Nested.programKinds_eq {e : Expr} (hnested : Nested e) : e.programKinds = e.kinds := by
  cases hnested <;> rfl

/-- The printed text of a whole program scans to its tokens. -/
theorem WellFormed.spells {e : Expr} (hwellFormed : e.WellFormed) :
    Spells e.text.toList e.programKinds := by
  cases hwellFormed with
  | nested hnested =>
      rw [hnested.text_eq, hnested.programKinds_eq]
      exact hnested.spells
  | @sequence statements hmany hnested =>
      cases statements with
      | nil => cases hmany
      | cons e es => exact spells_list closes_semicolon fun e hmem => (hnested e hmem).spells

/-- The text of a well-formed expression is scanned as the tokens of the expression. -/
theorem WellFormed.tokenize_text {e : Expr} (hwellFormed : e.WellFormed) :
    ∃ tokens, tokenize e.text = .ok tokens ∧
      tokens.map Token.kind = e.programKinds ++ [.endOfInput] := by
  have hscans := hwellFormed.spells.scans [] [.endOfInput] .nil .nil
  rw [List.append_nil] at hscans
  exact hscans 0

end Expr

end MotionScript
