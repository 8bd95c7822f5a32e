import MotionScript.Json.Text
import MotionScript.Number.Single
import MotionScript.Table
/-!
# JSON values

What the parts of a text stand for.  A string is a sequence of characters, so its surrogates have to
come in pairs.  A number is a 64-bit integer if it is written as one and fits, and otherwise a
double precision number.
-/

namespace MotionScript

namespace Json

/-! ### Strings -/

/-- The characters of a string.  A leading surrogate has to be followed by a trailing one, with
which it makes one character. -/
def decodePieces? : List Piece → Option (List Char)
  | [] => some []
  | .char c :: pieces => (decodePieces? pieces).map (c :: ·)
  | .unit lead :: .unit trail :: pieces =>
    if 0xD800 ≤ lead ∧ lead < 0xDC00 then
      if 0xDC00 ≤ trail ∧ trail < 0xE000 then
        let c := Char.ofNat (0x10000 + (lead - 0xD800) * 0x400 + (trail - 0xDC00))
        (decodePieces? pieces).map (c :: ·)
      else none
    else if 0xDC00 ≤ lead ∧ lead < 0xE000 then none
    else (decodePieces? (.unit trail :: pieces)).map (Char.ofNat lead :: ·)
  | .unit code :: pieces =>
    if 0xD800 ≤ code ∧ code < 0xE000 then none
    else (decodePieces? pieces).map (Char.ofNat code :: ·)

def text? (pieces : List Piece) : Option String :=
  (decodePieces? pieces).map String.ofList

/-! ### Numbers -/

inductive Number where
  /-- An integer without sign. -/
  | natural (n : Nat)
  /-- A negative integer, given by its magnitude. -/
  | negative (n : Nat)
  | double (x : Float)

def Number.toSingle : Number → Float32
  | .natural n => n.toFloat32
  | .negative n => -n.toFloat32
  | .double x => Single.narrow x

/-- Appends digits to a number as long as it stays within 64 bits, and counts the digits used. -/
def absorb (significand : Nat) : List Char → Nat × Nat
  | [] => (significand, 0)
  | digit :: digits =>
    let next := 10 * significand + (digit.toNat - '0'.toNat)
    if next < UInt64.size then
      let (significand, used) := absorb next digits
      (significand, used + 1)
    else (significand, 0)

def doublePower (exponent : Nat) : Float :=
  (Decimal.mk 1 exponent).toDouble

/-- Divides by ten to the power of `exponent`, in steps that double precision can hold. -/
def scaleDown (x : Float) (exponent : Nat) : Float :=
  if exponent ≤ 308 then x / doublePower exponent
  else if x == 0 then x
  else scaleDown (x / doublePower 308) (exponent - 308)
termination_by exponent

/-- Multiplies by a power of ten, unless the result is too large. -/
def scale? (x : Float) (exponent : Int) : Option Float :=
  if exponent < 0 then some (scaleDown x (-exponent).toNat)
  else if exponent ≤ 308 then
    let scaled := x * doublePower exponent.toNat
    if scaled.isInf then none else some scaled
  else if x == 0 then some x
  else none

/-- The largest exponent that is looked at digit by digit. -/
def exponentLimit : Int := 0x7FFFFFFF

/-- The magnitude of a number in double precision, unless it is too large.  The leading digits that
fit in 64 bits are converted and scaled, and later digits only count for the scale. -/
def Numeral.double? (numeral : Numeral) : Option Float :=
  let (high, usedHigh) := absorb 0 numeral.whole
  let (significand, usedLow) := absorb high numeral.fraction
  let exponent := numeral.exponent.getD 0
  if exponentLimit < exponent.natAbs then
    if significand ≠ 0 ∧ 0 < exponent then none else some 0
  else
    let shift : Int := (numeral.whole.length - usedHigh : Nat) - (usedLow : Int) + exponent
    scale? significand.toUInt64.toFloat shift

/-- Whether a number is written without a point and without an exponent. -/
def Numeral.isInteger (numeral : Numeral) : Bool :=
  numeral.fraction.isEmpty && numeral.exponent.isNone

/-- The value of a number, unless it is too large. -/
def Numeral.number? (numeral : Numeral) : Option Number :=
  let n := digitsValue numeral.whole
  if numeral.isInteger && !numeral.negative && n < UInt64.size then
    some (.natural n)
  else if numeral.isInteger && numeral.negative && 0 < n && n ≤ UInt64.size / 2 then
    some (.negative n)
  else numeral.double?.map fun x => .double (if numeral.negative then -x else x)

/-- The nearest double precision number to the digits. -/
def Numeral.nearest (numeral : Numeral) : Float :=
  let decimal := Decimal.ofDigits numeral.whole numeral.fraction
  let exponent := decimal.exponent + numeral.exponent.getD 0
  let magnitude := (Decimal.mk decimal.significand exponent).toDouble
  if numeral.negative then -magnitude else magnitude

end Json

/-! ### Values -/

/-- A JSON value.  The members of an object stand in the order of their keys' first appearance. -/
inductive Json where
  | null
  | bool (b : Bool)
  | number (number : Json.Number)
  | string (text : String)
  | array (elements : List Json)
  | object (members : List (String × Json))

namespace Json

instance : Inhabited Json := ⟨.null⟩

mutual

/-- The value of a tree whose containers are nested at most `room` deep.  Of several members with
one key the last one counts. -/
def ofTree? (room : Nat) : Tree → Option Json
  | .null => some .null
  | .bool b => some (.bool b)
  | .number numeral => numeral.number?.map .number
  | .string pieces => (text? pieces).map .string
  | .array elements =>
    match room with
    | 0 => none
    | room + 1 => (ofTrees? room elements).map .array
  | .object members =>
    match room with
    | 0 => none
    | room + 1 => (ofMembers? room members).map fun entries =>
        .object (entries.foldl (fun members entry => Table.place entry.1 entry.2 members) [])

def ofTrees? (room : Nat) : List Tree → Option (List Json)
  | [] => some []
  | tree :: trees => do
    let value ← ofTree? room tree
    let values ← ofTrees? room trees
    return value :: values

def ofMembers? (room : Nat) : List (List Piece × Tree) → Option (List (String × Json))
  | [] => some []
  | (key, tree) :: members => do
    let key ← text? key
    let value ← ofTree? room tree
    let values ← ofMembers? room members
    return (key, value) :: values

end

/-- The deepest nesting of containers in a value. -/
def nestingLimit : Nat := 127

def read? (text : String) : Option Json :=
  (Tree.read? text).bind (ofTree? nestingLimit)

/-! ### Parts of values -/

def member? (members : List (String × Json)) (key : String) : Option Json :=
  Table.find? key members

def single? : Json → Option Float32
  | .number n => some n.toSingle
  | _ => none

def string? : Json → Option String
  | .string text => some text
  | _ => none

/-- The parts of a structure with the given fields, in the order of the fields.  A structure is an
object of its fields, which may have others, or an array of them in their order. -/
def parts? (names : List String) : Json → Option (List (Option Json))
  | .object members => some (names.map (member? members))
  | .array elements =>
    if names.length < elements.length then none
    else some (elements.map some ++ List.replicate (names.length - elements.length) none)
  | _ => none

/-- A part that may be left out or `null`. -/
def optional? {β : Type} (decode : Json → Option β) : Option Json → Option (Option β)
  | none | some .null => some none
  | some json => (decode json).map some

end Json

end MotionScript
