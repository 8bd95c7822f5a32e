import MotionScript.Token.Basic
/-!
# Errors

Loading can fail, evaluation cannot.  Each type of this module lists the causes of one kind of
failure, and one function gives the text of a cause.  A host that reports failures of its own uses
the constructors named `described`, which carry its words.
-/

namespace MotionScript

/-- Why a place in the source starts no token. -/
inductive LexFault where
  /-- A letter, digit or underscore follows a number. -/
  | numberSuffix
  /-- The number is too large. -/
  | numberRange (digits : String)
  /-- A single `&` or `|`. -/
  | bitwise (operator : Char)
  /-- A quotation mark. -/
  | stringLiteral
  /-- A character that no token starts with. -/
  | unexpected (character : Char)
  /-- A fault in the words of the host. -/
  | described (text : String)
deriving DecidableEq

def LexFault.message : LexFault → String
  | .numberSuffix => "invalid character in number"
  | .numberRange digits => s!"number '{digits}' is out of range"
  | .bitwise operator => s!"bitwise operator '{operator}' is not supported"
  | .stringLiteral => "string literals are not supported"
  | .unexpected character => s!"unexpected character '{character}'"
  | .described text => text

/-- A fault and the byte where it was met. -/
structure LexError where
  offset : Nat
  fault : LexFault
deriving DecidableEq

def LexError.message (error : LexError) : String :=
  s!"lex error at byte {error.offset}: {error.fault.message}"

/-- What stood where something else was expected. -/
inductive Found where
  /-- A token. -/
  | token (kind : Token.Kind)
  /-- A number of arguments given to a function. -/
  | arguments (count : Nat) (function : String)
  /-- A finding in the words of the host. -/
  | described (text : String)
deriving DecidableEq

def Found.message : Found → String
  | .token kind => kind.describe
  | .arguments count function => s!"{count} argument(s) to 'math.{function}'"
  | .described text => text

/-- What the grammar expected. -/
inductive Expected where
  | expression
  | endOfInput
  | closingParen
  /-- The colon between the branches of a conditional. -/
  | colon
  /-- A name to assign to. -/
  | target
  /-- A name in a scope that can be written. -/
  | writableTarget
  /-- A path in place of an identifier. -/
  | scopedName
  /-- A path whose first word is known. -/
  | knownScope
  /-- A path that names a function. -/
  | knownFunction
  /-- The arguments of a function. -/
  | callParen (function : String)
  | arguments (count : Nat)
  /-- The next argument or the end of the arguments. -/
  | moreArguments
  /-- The end of an empty list of arguments. -/
  | noArguments
  /-- Less nesting. -/
  | nesting (limit : Nat)
  /-- An expectation in the words of the host. -/
  | described (text : String)
deriving DecidableEq

def Expected.message : Expected → String
  | .expression => "expression"
  | .endOfInput => "end of input"
  | .closingParen => "')'"
  | .colon => "':' after the true branch"
  | .target => "assignment target"
  | .writableTarget => "variable or temp assignment target"
  | .scopedName => "scoped name such as 'query.name' or 'math.name'"
  | .knownScope => "variable, query, temp, context or math name"
  | .knownFunction => "known math function"
  | .callParen function => s!"'(' after 'math.{function}'"
  | .arguments count => s!"{count} argument(s)"
  | .moreArguments => "',' or ')'"
  | .noArguments => "')' (query arguments are not supported)"
  | .nesting limit => s!"expression nested at most {limit} levels deep"
  | .described text => text

/-- A place in the source at which the grammar was not met. -/
structure ParseError where
  offset : Nat
  found : Found
  expected : Expected
deriving DecidableEq

def ParseError.message (error : ParseError) : String :=
  s!"parse error at byte {error.offset}: expected {error.expected.message}" ++
    s!", found {error.found.message}"

/-- Why a definition makes no curve, curve set or channel. -/
inductive ConstructionFault where
  | unknownShape (name : String)
  /-- A chain is given as a list. -/
  | chainWithoutTimes
  /-- The key of a node is not a number. -/
  | keyNotTime (key : String)
  | nodeWithoutValue (key : String)
  /-- One side of a chain node is missing. -/
  | nodeWithoutSide (key side : String)
  /-- A chain node gives its value for both sides and for one. -/
  | valueTwice (key : String)
  /-- A chain node gives its slope for both sides and for one. -/
  | slopeTwice (key : String)
  | bezierNodeCount (count : Nat)
  | nodeTimeNotFinite (time : Float32)
  | keyTimeNotFinite (time : Float32)
  /-- The key of a curve in a set names no variable. -/
  | notVariableName (key : String)
  /-- A fault in the words of the host. -/
  | described (text : String)
deriving DecidableEq

def ConstructionFault.message : ConstructionFault → String
  | .unknownShape name =>
    s!"unsupported curve type '{name}', expected linear, bezier, bezier_chain or catmull_rom"
  | .chainWithoutTimes => "bezier_chain nodes must be an object keyed by time"
  | .keyNotTime key => s!"curve node key '{key}' is not a time"
  | .nodeWithoutValue key => s!"curve node '{key}' has no value"
  | .nodeWithoutSide key side => s!"curve node '{key}' has no {side}"
  | .valueTwice key =>
    s!"curve node '{key}': left_value and right_value must not be present with value"
  | .slopeTwice key =>
    s!"curve node '{key}': left_slope and right_slope must not be present with slope"
  | .bezierNodeCount count => s!"bezier curve expects 4 nodes, got {count}"
  | .nodeTimeNotFinite time => "curve node time must be finite, got " ++ Single.plainText time
  | .keyTimeNotFinite time => "keyframe timestamp must be finite, got " ++ Single.plainText time
  | .notVariableName key => s!"'{key}' is not a valid variable name"
  | .described text => text

/-- Why definition data has the wrong shape. -/
inductive ShapeFault where
  /-- The text is not JSON, or a part of it has the wrong type. -/
  | malformed
  /-- A set of curves is not an object. -/
  | curvesNotObject
  /-- A fault in the words of the host. -/
  | described (text : String)
deriving DecidableEq

def ShapeFault.message : ShapeFault → String
  | .malformed => "unexpected shape"
  | .curvesNotObject => "curves must be a JSON object"
  | .described text => text

/-- Everything that can go wrong while content is loaded. -/
inductive LoadError where
  | lex (error : LexError)
  | parse (error : ParseError)
  | construction (fault : ConstructionFault)
  | shape (fault : ShapeFault)
  /-- A failure of the host, in its words. -/
  | other (text : String)
deriving DecidableEq

def LoadError.message : LoadError → String
  | .lex error => error.message
  | .parse error => error.message
  | .construction fault => "construction error: " ++ fault.message
  | .shape fault => "serialization error: " ++ fault.message
  | .other text => text

end MotionScript
