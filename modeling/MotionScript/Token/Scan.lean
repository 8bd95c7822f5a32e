import MotionScript.Text.Blank
import MotionScript.Error
/-!
# From text to tokens

The longest lexeme at the head of the text is taken, after the blanks before it.  A scanning
function returns what it took and what it left, and these two together are always the text it was
given, so every recursion is on a shorter text.
-/

namespace MotionScript

def isNameStart (c : Char) : Bool :=
  c.isAlpha || c == '_'

def isNameChar (c : Char) : Bool :=
  c.isAlphanum || c == '_'

namespace Token

/-- The head of a text that makes a lexeme, and the rest of the text. -/
structure Cut where
  lexeme : List Char
  rest : List Char
deriving DecidableEq

/-- Cuts after the longest run of characters of a class. -/
def run (accepts : Char → Bool) (text : List Char) : Cut :=
  ⟨text.takeWhile accepts, text.dropWhile accepts⟩

/-- Adds a character that was read before the cut. -/
def Cut.after (c : Char) (cut : Cut) : Cut :=
  { cut with lexeme := c :: cut.lexeme }

/-- Cuts after the rest of a name: a dot belongs to the name if a name could start behind it. -/
def nameTail : List Char → Cut
  | '.' :: c :: text =>
    if isNameStart c then ((nameTail text).after c).after '.' else ⟨[], '.' :: c :: text⟩
  | c :: text => if isNameChar c then (nameTail text).after c else ⟨[], c :: text⟩
  | [] => ⟨[], []⟩

/-- Cuts after digits and, if a point follows them, after the digits behind the point. -/
def numeral (text : List Char) : Cut :=
  let whole := run Char.isDigit text
  match whole.rest with
  | '.' :: tail =>
    let fraction := run Char.isDigit tail
    ⟨whole.lexeme ++ '.' :: fraction.lexeme, fraction.rest⟩
  | _ => whole

def numeralValue (lexeme : List Char) : Float32 :=
  let whole := lexeme.takeWhile Char.isDigit
  (Decimal.ofDigits whole (lexeme.drop (whole.length + 1))).toSingle

/-- Whether a number starts the text: a digit, or a point before a digit. -/
def startsNumeral : List Char → Bool
  | '.' :: c :: _ => c.isDigit
  | c :: _ => c.isDigit
  | [] => false

/-- The kind of a name: a path if it has a dot. -/
def nameKind (lexeme : List Char) : Token.Kind :=
  if lexeme.contains '.' then .path (String.ofList lexeme)
  else .identifier (String.ofList lexeme)

/-- Why a character starts no token. -/
def fault (c : Char) : LexFault :=
  if c == '&' || c == '|' then .bitwise c
  else if c == '\'' || c == '"' then .stringLiteral
  else .unexpected c

/-- A number at the head of a text that starts with one. -/
def scanNumber (offset : Nat) (text : List Char) : Except LexError (Token.Kind × Cut) :=
  let cut := numeral text
  let value := numeralValue cut.lexeme
  if cut.rest.head?.any isNameChar then
    .error ⟨offset + byteWidth cut.lexeme, .numberSuffix⟩
  else if value.isFinite then
    .ok (.number value, cut)
  else
    .error ⟨offset, .numberRange (String.ofList cut.lexeme)⟩

/-- A symbol at the head of a text, two characters before one. -/
def scanSymbol (offset : Nat) (c : Char) (text : List Char) : Except LexError (Token.Kind × Cut) :=
  match text.head?.bind (Symbol.ofPair? c) with
  | some mark => .ok (.symbol mark, ⟨c :: text.take 1, text.drop 1⟩)
  | none =>
    match Symbol.ofChar? c with
    | some mark => .ok (.symbol mark, ⟨[c], text⟩)
    | none => .error ⟨offset, fault c⟩

/-- The lexeme at the head of the text `c :: text`, which starts with no blank. -/
def scan (offset : Nat) (c : Char) (text : List Char) : Except LexError (Token.Kind × Cut) :=
  if startsNumeral (c :: text) then
    scanNumber offset (c :: text)
  else if isNameStart c then
    let cut := (nameTail text).after c
    .ok (nameKind cut.lexeme, cut)
  else
    scanSymbol offset c text

/-! ### Every lexeme takes at least one character -/

theorem run_append (accepts : Char → Bool) (text : List Char) :
    (run accepts text).lexeme ++ (run accepts text).rest = text :=
  List.takeWhile_append_dropWhile

theorem nameTail_append (text : List Char) :
    (nameTail text).lexeme ++ (nameTail text).rest = text := by
  fun_induction nameTail text <;> simp_all [Cut.after]

/-- A numeral and the rest make up the text. -/
theorem numeral_append (text : List Char) :
    (numeral text).lexeme ++ (numeral text).rest = text := by
  have happend := run_append Char.isDigit text
  dsimp only [numeral]
  split
  next tail heq =>
    have htail := run_append Char.isDigit tail
    rw [heq] at happend
    simp only [List.append_assoc, List.cons_append, htail, happend]
  next => exact happend

/-- A text that starts with a numeral has one of at least one character. -/
theorem numeral_lexeme_ne_nil {text : List Char} (hstart : startsNumeral text = true) :
    (numeral text).lexeme ≠ [] := by
  dsimp only [numeral]
  split
  · simp
  next hpoint =>
    match text with
    | [] => simp [startsNumeral] at hstart
    | c :: text =>
      by_cases hdigit : c.isDigit = true
      · simp [run, hdigit]
      · exfalso
        by_cases hdot : c = '.'
        · exact hpoint text (by simp [run, hdot])
        · unfold startsNumeral at hstart
          split at hstart <;> simp_all

/-- What is scanned and the rest make up the text. -/
theorem scan_append {offset : Nat} {c : Char} {text : List Char} {kind : Token.Kind} {cut : Cut}
    (hscan : scan offset c text = .ok (kind, cut)) :
    cut.lexeme ++ cut.rest = c :: text := by
  unfold scan at hscan
  split at hscan
  · dsimp only [scanNumber] at hscan
    have happend := numeral_append (c :: text)
    split at hscan
    · cases hscan
    · split at hscan
      · cases hscan; exact happend
      · cases hscan
  · split at hscan
    · cases hscan
      simpa [Cut.after] using nameTail_append text
    · unfold scanSymbol at hscan
      split at hscan
      · cases hscan
        simp only [List.cons_append, List.take_append_drop]
      · split at hscan <;> cases hscan
        simp

/-- Every scan takes at least one character. -/
theorem scan_lexeme_ne_nil {offset : Nat} {c : Char} {text : List Char} {kind : Token.Kind}
    {cut : Cut} (hscan : scan offset c text = .ok (kind, cut)) : cut.lexeme ≠ [] := by
  unfold scan at hscan
  split at hscan
  next hstart =>
    dsimp only [scanNumber] at hscan
    have hne := numeral_lexeme_ne_nil hstart
    split at hscan
    · cases hscan
    · split at hscan
      · cases hscan; exact hne
      · cases hscan
  · split at hscan
    · cases hscan; simp [Cut.after]
    · unfold scanSymbol at hscan
      split at hscan
      · cases hscan; simp
      · split at hscan <;> cases hscan
        simp

/-- Every scan leaves less than it was given. -/
theorem length_rest_lt {offset : Nat} {c : Char} {text : List Char} {kind : Token.Kind} {cut : Cut}
    (hscan : scan offset c text = .ok (kind, cut)) :
    cut.rest.length < (c :: text).length := by
  have happend := congrArg List.length (scan_append hscan)
  have hne := List.length_pos_iff.2 (scan_lexeme_ne_nil hscan)
  simp only [List.length_append] at happend
  omega

/-- The tokens of a text that starts at a byte of the source. -/
def scanAll (offset : Nat) (text : List Char) : Except LexError (List Token) :=
  match text with
  | [] => .ok [⟨.endOfInput, offset, offset⟩]
  | c :: text =>
    if isBlank c then scanAll (offset + c.utf8Size) text
    else
      match _hscan : scan offset c text with
      | .error error => .error error
      | .ok (kind, cut) =>
        let stop := offset + byteWidth cut.lexeme
        (scanAll stop cut.rest).map (⟨kind, offset, stop⟩ :: ·)
termination_by text.length
decreasing_by
  · simp
  · exact length_rest_lt _hscan

end Token

/-- The tokens of a source text, the last of which is its end. -/
def tokenize (source : String) : Except LexError (List Token) :=
  Token.scanAll 0 source.toList

end MotionScript
