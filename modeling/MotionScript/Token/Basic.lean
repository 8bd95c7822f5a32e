import MotionScript.Number.Decimal
/-!
# Tokens

Source text is a sequence of numbers, names and symbols.  A name without a dot is an identifier and
a name with dots is a path, which is one token.  Every token remembers the bytes it was read from.
-/

namespace MotionScript

inductive Symbol where
  | leftParen | rightParen | comma | semicolon
  | plus | minus | star | slash | percent | bang
  | equal | notEqual | less | lessEqual | greater | greaterEqual | bothTrue | eitherTrue
  | question | colon
  | assign | plusAssign | minusAssign | starAssign | slashAssign
deriving DecidableEq

namespace Symbol

def spelling : Symbol → String
  | leftParen => "("
  | rightParen => ")"
  | comma => ","
  | semicolon => ";"
  | plus => "+"
  | minus => "-"
  | star => "*"
  | slash => "/"
  | percent => "%"
  | bang => "!"
  | equal => "=="
  | notEqual => "!="
  | less => "<"
  | lessEqual => "<="
  | greater => ">"
  | greaterEqual => ">="
  | bothTrue => "&&"
  | eitherTrue => "||"
  | question => "?"
  | colon => ":"
  | assign => "="
  | plusAssign => "+="
  | minusAssign => "-="
  | starAssign => "*="
  | slashAssign => "/="

/-- Every symbol, the operators in the order of their tables. -/
def all : List Symbol :=
  [leftParen, rightParen, comma, semicolon, plus, minus, star, slash, percent, bang, equal,
    notEqual, less, lessEqual, greater, greaterEqual, bothTrue, eitherTrue, question, colon,
    assign, plusAssign, minusAssign, starAssign, slashAssign]

def ofSpelling? (spelling : String) : Option Symbol :=
  all.find? fun symbol => symbol.spelling == spelling

def ofPair? : Char → Char → Option Symbol
  | '&', '&' => some bothTrue
  | '|', '|' => some eitherTrue
  | '=', '=' => some equal
  | '!', '=' => some notEqual
  | '<', '=' => some lessEqual
  | '>', '=' => some greaterEqual
  | '+', '=' => some plusAssign
  | '-', '=' => some minusAssign
  | '*', '=' => some starAssign
  | '/', '=' => some slashAssign
  | _, _ => none

def ofChar? : Char → Option Symbol
  | '(' => some leftParen
  | ')' => some rightParen
  | ',' => some comma
  | ';' => some semicolon
  | '+' => some plus
  | '-' => some minus
  | '*' => some star
  | '/' => some slash
  | '%' => some percent
  | '!' => some bang
  | '<' => some less
  | '>' => some greater
  | '?' => some question
  | ':' => some colon
  | '=' => some assign
  | _ => none

end Symbol

inductive Token.Kind where
  /-- A number; the sign before it is a token of its own. -/
  | number (value : Float32)
  /-- A name without dots. -/
  | identifier (name : String)
  /-- A name with dots. -/
  | path (name : String)
  /-- Punctuation or an operator. -/
  | symbol (symbol : Symbol)
  /-- The end of the text. -/
  | endOfInput
deriving DecidableEq

/-- How a token is named in messages. -/
def Token.Kind.describe : Token.Kind → String
  | .number value => "number " ++ Single.plainText value
  | .identifier name => s!"identifier '{name}'"
  | .path name => s!"'{name}'"
  | .symbol mark => s!"'{mark.spelling}'"
  | .endOfInput => "end of input"

/-- A token and the half-open range of bytes that it was read from. -/
structure Token where
  kind : Token.Kind
  start : Nat
  stop : Nat
deriving DecidableEq

def byteWidth (text : List Char) : Nat :=
  text.foldr (fun c width => c.utf8Size + width) 0

/-- The characters after the first `width` bytes, if a character starts there. -/
def dropBytes : Nat → List Char → Option (List Char)
  | 0, text => some text
  | _ + 1, [] => none
  | width, c :: text => if c.utf8Size ≤ width then dropBytes (width - c.utf8Size) text else none

/-- The characters of the first `width` bytes, if a character ends there. -/
def takeBytes : Nat → List Char → Option (List Char)
  | 0, _ => some []
  | _ + 1, [] => none
  | width, c :: text =>
    if c.utf8Size ≤ width then (takeBytes (width - c.utf8Size) text).map (c :: ·) else none

/-- The bytes of the source that the token was read from, as text. -/
def Token.text (source : String) (token : Token) : String :=
  let slice := do
    let tail ← dropBytes token.start source.toList
    takeBytes (token.stop - token.start) tail
  String.ofList (slice.getD [])

end MotionScript
