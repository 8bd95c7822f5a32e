import MotionScript.Number.Decimal
import MotionScript.Text.Blank
/-!
# Reading a number

The text of a number is a sign, digits with or without a point, and an exponent; or a word for a
number that is not finite.  At least one digit stands before or after the point.
-/

namespace MotionScript.Single

/-- The exponent that the rest of a text writes, zero if nothing is left. -/
def readExponent? : List Char → Option Int
  | [] => some 0
  | e :: text =>
    if e = 'e' ∨ e = 'E' then
      let (negative, digits) :=
        match text with
        | '-' :: digits => (true, digits)
        | '+' :: digits => (false, digits)
        | digits => (false, digits)
      if digits.isEmpty || !digits.all Char.isDigit then none
      else
        let exponent : Int := digitsValue digits
        some (if negative then -exponent else exponent)
    else none

/-- The number that digits, a point and an exponent write. -/
def readDecimal? (text : List Char) : Option Float32 :=
  let whole := text.takeWhile Char.isDigit
  let (fraction, rest) :=
    match text.drop whole.length with
    | '.' :: tail => (tail.takeWhile Char.isDigit, tail.dropWhile Char.isDigit)
    | tail => ([], tail)
  if whole.isEmpty && fraction.isEmpty then none
  else
    (readExponent? rest).map fun exponent =>
      let decimal := Decimal.ofDigits whole fraction
      (Decimal.mk decimal.significand (decimal.exponent + exponent)).toSingle

def readUnsigned? (text : List Char) : Option Float32 :=
  match lowerCase (String.ofList text) with
  | "inf" | "infinity" => some (1 / 0)
  | "nan" => some (0 / 0)
  | _ => readDecimal? text

def read? (text : String) : Option Float32 :=
  match text.toList with
  | '-' :: text => (readUnsigned? text).map (-·)
  | '+' :: text => readUnsigned? text
  | text => readUnsigned? text

end MotionScript.Single
