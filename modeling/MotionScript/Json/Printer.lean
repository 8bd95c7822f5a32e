import MotionScript.Number.Decimal
/-!
# Writing JSON

Texts of JSON values without blanks.  Single precision numbers are written with the fewest digits
that read back; JSON has no notation for those that are not finite.
-/

namespace MotionScript.Json

private def hexDigit (n : Nat) : Char :=
  (Nat.toDigits 16 n).headD '0'

/-- A character of a string, escaped where JSON asks for it. -/
def escape (c : Char) : List Char :=
  match c with
  | '"' => ['\\', '"']
  | '\\' => ['\\', '\\']
  | '\n' => ['\\', 'n']
  | '\r' => ['\\', 'r']
  | '\t' => ['\\', 't']
  | '\x08' => ['\\', 'b']
  | '\x0c' => ['\\', 'f']
  | c =>
    if c.toNat < 0x20 then ['\\', 'u', '0', '0', hexDigit (c.toNat / 16), hexDigit (c.toNat % 16)]
    else [c]

def stringText (text : String) : String :=
  "\"" ++ String.ofList (text.toList.flatMap escape) ++ "\""

def boolText (b : Bool) : String :=
  if b then "true" else "false"

/-- Numbers from `0.00001` up to ten quadrillion have no exponent, and all of them have a digit
behind the point.  A tie between two decimals goes to the even digit. -/
def numberLayout : Decimal.Layout where
  tie := .toEven
  positional point := -4 ≤ point && point ≤ 16
  keepsFraction := true
  plus := "+"

/-- The text of a number, `null` if it is not finite. -/
def singleText (x : Float32) : String :=
  if x.isFinite then Single.text numberLayout x else "null"

def arrayText (values : List String) : String :=
  "[" ++ ",".intercalate values ++ "]"

def objectText (fields : List (String × String)) : String :=
  let members := fields.map fun (key, value) => stringText key ++ ":" ++ value
  "\x7b" ++ ",".intercalate members ++ "\x7d"

/-- The text of an optional value, `null` if there is none. -/
def optionText {α : Type} (text : α → String) : Option α → String
  | some value => text value
  | none => "null"

end MotionScript.Json
