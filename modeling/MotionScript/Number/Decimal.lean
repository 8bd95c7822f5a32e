import MotionScript.Number.Single
/-!
# Decimal notation

A decimal number is read as the nearest binary number, and a binary number is written with the
fewest digits that read back as that number.  The search for those digits tests candidates with
the reader itself, so reading back is what the search is about and not a property to be hoped for.
-/

namespace MotionScript

/-- The number `significand * 10 ^ exponent`. -/
structure Decimal where
  significand : Nat
  exponent : Int
deriving DecidableEq

def digitsValue (digits : List Char) : Nat :=
  digits.foldl (fun value digit => 10 * value + (digit.toNat - '0'.toNat)) 0

namespace Decimal

/-- The nearest single precision number, a tie going to the even neighbour. -/
def toSingle (d : Decimal) : Float32 :=
  .ofModel (.ofScientific d.significand d.exponent)

/-- The nearest double precision number, a tie going to the even neighbour. -/
def toDouble (d : Decimal) : Float :=
  .ofModel (.ofScientific d.significand d.exponent)

/-- The decimal whose digits stand before and after the point. -/
def ofDigits (whole fraction : List Char) : Decimal :=
  ⟨digitsValue (whole ++ fraction), -fraction.length⟩

/-! ### The fewest digits -/

/-- Where a number goes that lies in the middle between two decimals. -/
inductive Tie where
  /-- To the greater decimal. -/
  | up
  /-- To the decimal that ends in an even digit. -/
  | toEven
deriving DecidableEq

/-- Whether the middle between `below` and its successor goes to the successor. -/
def Tie.goesUp : Tie → Nat → Bool
  | .up, _ => true
  | .toEven, below => below % 2 == 1

/-- A tie that goes to the even decimal goes up just where the greater decimal is the even one. -/
theorem Tie.goesUp_toEven_iff (below : Nat) :
    Tie.toEven.goesUp below = true ↔ (below + 1) % 2 = 0 := by
  simp only [Tie.goesUp, beq_iff_eq]
  omega

/-- The two neighbours of `mantissa * 2 ^ exponent` among the multiples of `10 ^ place`, counted in
those multiples, the nearer one first. -/
def neighbours (tie : Tie) (mantissa : Nat) (exponent place : Int) : List Nat :=
  let numerator := mantissa <<< exponent.toNat * Nat.pow 10 (-place).toNat
  let denominator := 1 <<< (-exponent).toNat * Nat.pow 10 place.toNat
  let below := numerator / denominator
  let twice := 2 * (numerator % denominator)
  if denominator < twice || twice = denominator && tie.goesUp below then [below + 1, below]
  else [below, below + 1]

/-- The exact value of `mantissa * 2 ^ exponent`. -/
def exact (mantissa : Nat) (exponent : Int) : Decimal :=
  if 0 ≤ exponent then ⟨mantissa <<< exponent.toNat, 0⟩
  else ⟨mantissa * Nat.pow 5 (-exponent).toNat, exponent⟩

/-- The first decimal that reads back as `x`, going down from the multiples of `10 ^ place`. -/
def search (tie : Tie) (x : Float32) (mantissa : Nat) (exponent : Int) :
    Nat → Int → Option Decimal
  | 0, _ => none
  | steps + 1, place =>
    let candidates := (neighbours tie mantissa exponent place).map (Decimal.mk · place)
    match candidates.find? fun d => decide (d.toSingle = x) with
    | some d => some d
    | none => search tie x mantissa exponent steps (place - 1)

/-- The decimal with the fewest digits that reads back as the magnitude of a number, and among those
the nearest one, or the one that the tie rule picks.  Numbers that have no magnitude to write give
zero. -/
def shortest (tie : Tie) (x : Float32) : Decimal :=
  match x.toModel.unpack with
  | .finite _ mantissa exponent _ =>
    -- A power of ten above the number: 0.30103 exceeds the logarithm of two.
    let place := (mantissa.log2 + 1 + exponent) * 30103 / 100000 + 1
    (search tie x.abs mantissa exponent (place + 150).toNat place).getD (exact mantissa exponent)
  | _ => ⟨0, 0⟩

/-! ### Layouts -/

/-- How the digits of a number are chosen and laid out.  The decimal point stands after as many
digits as the number has before it, counted negatively for zeros that follow the point. -/
structure Layout where
  /-- Which of two nearest decimals is written. -/
  tie : Tie
  /-- The range of the point within which a number is written without an exponent. -/
  positional : Int → Bool
  /-- Whether an integer written without an exponent ends in `.0`. -/
  keepsFraction : Bool
  /-- What stands before an exponent that is not negative. -/
  plus : String

def point (d : Decimal) : Int :=
  (toString d.significand).length + d.exponent

private def zeros (n : Nat) : String :=
  String.ofList (List.replicate n '0')

/-- The digits with the point at its place and no exponent. -/
def positionalText (keepsFraction : Bool) (d : Decimal) : String :=
  let digits := toString d.significand
  if 0 ≤ d.exponent then
    digits ++ zeros d.exponent.toNat ++ (if keepsFraction then ".0" else "")
  else if 0 < d.point then
    let whole := digits.toList.take d.point.toNat
    let fraction := digits.toList.drop d.point.toNat
    String.ofList whole ++ "." ++ String.ofList fraction
  else
    "0." ++ zeros (-d.point).toNat ++ digits

/-- One digit before the point, and the exponent that this takes. -/
def scientificText (plus : String) (d : Decimal) : String :=
  let power := d.point - 1
  let mantissa :=
    match (toString d.significand).toList with
    | [] => ""
    | [digit] => String.ofList [digit]
    | digit :: digits => String.ofList [digit] ++ "." ++ String.ofList digits
  mantissa ++ "e" ++ (if 0 ≤ power then plus else "") ++ toString power

def text (layout : Layout) (d : Decimal) : String :=
  if d.significand = 0 || layout.positional d.point then d.positionalText layout.keepsFraction
  else d.scientificText layout.plus

/-- Plain notation has no exponent and gives integers no point, and a tie goes up. -/
def Layout.plain : Layout where
  tie := .up
  positional _ := true
  keepsFraction := false
  plus := ""

end Decimal

namespace Single

def text (layout : Decimal.Layout) (x : Float32) : String :=
  if x.isNaN then "NaN"
  else
    let sign := if isNegative x then "-" else ""
    let magnitude := if x.isInf then "inf" else (Decimal.shortest layout.tie x).text layout
    sign ++ magnitude

def plainText (x : Float32) : String :=
  text .plain x

end Single

end MotionScript
