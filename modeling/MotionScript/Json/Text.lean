import MotionScript.Number.Decimal
/-!
# The parts of a JSON text

A text that keeps strictly to the grammar of JSON is read into a tree of its parts.  Strings stay
sequences of characters and escaped code units, and numbers stay digits: what they stand for is
decided when they are used, so a part that nobody uses may hold anything that the grammar allows.
-/

namespace MotionScript.Json

/-- A part of a string: a character, or a code unit written as four hexadecimal digits. -/
inductive Piece where
  | char (c : Char)
  | unit (code : Nat)

/-- The digits of a number, as they are written. -/
structure Numeral where
  negative : Bool
  whole : List Char
  /-- The digits behind the point, none if there is no point. -/
  fraction : List Char
  exponent : Option Int

/-- The parts of a text. -/
inductive Tree where
  | null
  | bool (b : Bool)
  | number (numeral : Numeral)
  | string (pieces : List Piece)
  | array (elements : List Tree)
  | object (members : List (List Piece × Tree))

/-- A function that reads from the head of a text what it can, and gives the rest of the text. -/
abbrev Reader (α : Type) := List Char → Option (α × List Char)

def isBlank (c : Char) : Bool :=
  c == ' ' || c == '\n' || c == '\t' || c == '\r'

def skipBlanks (text : List Char) : List Char :=
  text.dropWhile isBlank

/-! ### Strings -/

def hexValue? (c : Char) : Option Nat :=
  if c.isDigit then some (c.toNat - '0'.toNat)
  else if 'a' ≤ c ∧ c ≤ 'f' then some (c.toNat - 'a'.toNat + 10)
  else if 'A' ≤ c ∧ c ≤ 'F' then some (c.toNat - 'A'.toNat + 10)
  else none

def codeUnit? (a b c d : Char) : Option Nat := do
  return (((← hexValue? a) * 16 + (← hexValue? b)) * 16 + (← hexValue? c)) * 16 + (← hexValue? d)

def escaped? : Char → Option Char
  | '"' => some '"'
  | '\\' => some '\\'
  | '/' => some '/'
  | 'b' => some '\x08'
  | 'f' => some '\x0c'
  | 'n' => some '\n'
  | 'r' => some '\r'
  | 't' => some '\t'
  | _ => none

/-- The rest of a string, up to the quotation mark that ends it. -/
def readPieces : Reader (List Piece)
  | '"' :: text => some ([], text)
  | '\\' :: 'u' :: a :: b :: c :: d :: text => do
    let code ← codeUnit? a b c d
    let (pieces, text) ← readPieces text
    return (.unit code :: pieces, text)
  | '\\' :: c :: text => do
    let c ← escaped? c
    let (pieces, text) ← readPieces text
    return (.char c :: pieces, text)
  | c :: text =>
    if c.toNat < 0x20 then none
    else do
      let (pieces, text) ← readPieces text
      return (.char c :: pieces, text)
  | [] => none

/-! ### Numbers -/

def readDigits : Reader (List Char) := fun text =>
  match text.takeWhile Char.isDigit with
  | [] => none
  | digits => some (digits, text.dropWhile Char.isDigit)

/-- The digits before the point, the first of which is zero only if it is alone. -/
def readWhole : Reader (List Char) := fun text => do
  let (digits, text) ← readDigits text
  match digits with
  | '0' :: _ :: _ => none
  | digits => return (digits, text)

/-- The point and the digits behind it, if there is a point. -/
def readFraction : Reader (List Char)
  | '.' :: text => readDigits text
  | text => some ([], text)

def readExponent : Reader (Option Int)
  | e :: text =>
    if e = 'e' ∨ e = 'E' then
      match text with
      | '-' :: text => do
        let (digits, text) ← readDigits text
        return (some (-(digitsValue digits : Int)), text)
      | '+' :: text => do
        let (digits, text) ← readDigits text
        return (some (digitsValue digits : Int), text)
      | text => do
        let (digits, text) ← readDigits text
        return (some (digitsValue digits : Int), text)
    else some (none, e :: text)
  | [] => some (none, [])

def readUnsigned (negative : Bool) : Reader Numeral := fun text => do
  let (whole, text) ← readWhole text
  let (fraction, text) ← readFraction text
  let (exponent, text) ← readExponent text
  return (⟨negative, whole, fraction, exponent⟩, text)

def readNumeral : Reader Numeral
  | '-' :: text => readUnsigned true text
  | text => readUnsigned false text

/-! ### Values -/

/-- The text behind a word that has to come first. -/
def readWord (word : String) (tree : Tree) : Reader Tree := fun text =>
  if word.toList.isPrefixOf text then some (tree, text.drop word.length) else none

mutual

/-- A value.  The first argument bounds the nested calls. -/
def readTree : Nat → Reader Tree
  | 0, _ => none
  | fuel + 1, text =>
    match skipBlanks text with
    | '\x7b' :: text =>
      match skipBlanks text with
      | '\x7d' :: text => some (.object [], text)
      | text => do
        let (members, text) ← readMembers fuel text
        return (.object members, text)
    | '[' :: text =>
      match skipBlanks text with
      | ']' :: text => some (.array [], text)
      | text => do
        let (elements, text) ← readElements fuel text
        return (.array elements, text)
    | '"' :: text => do
      let (pieces, text) ← readPieces text
      return (.string pieces, text)
    | 'n' :: text => readWord "null" .null ('n' :: text)
    | 't' :: text => readWord "true" (.bool true) ('t' :: text)
    | 'f' :: text => readWord "false" (.bool false) ('f' :: text)
    | text => do
      let (numeral, text) ← readNumeral text
      return (.number numeral, text)

/-- The elements of an array, at least one of them, and the bracket that ends it. -/
def readElements : Nat → Reader (List Tree)
  | 0, _ => none
  | fuel + 1, text => do
    let (element, text) ← readTree fuel text
    match skipBlanks text with
    | ',' :: text =>
      let (elements, text) ← readElements fuel text
      return (element :: elements, text)
    | ']' :: text => return ([element], text)
    | _ => none

/-- The members of an object, at least one of them, and the brace that ends it. -/
def readMembers : Nat → Reader (List (List Piece × Tree))
  | 0, _ => none
  | fuel + 1, text =>
    match skipBlanks text with
    | '"' :: text => do
      let (key, text) ← readPieces text
      match skipBlanks text with
      | ':' :: text =>
        let (element, text) ← readTree fuel text
        match skipBlanks text with
        | ',' :: text =>
          let (members, text) ← readMembers fuel text
          return ((key, element) :: members, text)
        | '\x7d' :: text => return ([(key, element)], text)
        | _ => none
      | _ => none
    | _ => none

end

/-- The parts of a text, if it is one JSON value with nothing but blanks around it.  Each nested
call comes after a character was read or from a call that did read one, so twice the length of the
text bounds the calls. -/
def Tree.read? (text : String) : Option Tree :=
  match readTree (2 * text.length + 2) text.toList with
  | some (tree, rest) => if (skipBlanks rest).isEmpty then some tree else none
  | none => none

end MotionScript.Json
