/-!
# Single precision numbers

Every number of the language is a binary32 `Float32`.  The operations of this module are the ones
that lie between the arithmetic of `Float32` and the language: conversions that keep or round a
value, rounding to an integer, the exact remainder, and the total order by which times are sorted.
Each is defined on the sign, mantissa and exponent of its operands, so that its value is fixed by
the definition and not by a machine instruction.
-/

namespace MotionScript.Single

open Float.Model (Format UnpackedFloat)
open Float.Model.UnpackedFloat (Sign)

/-- The number rounded into a format, a tie going to the even neighbour. -/
def fit (format : Format) : UnpackedFloat → UnpackedFloat
  | .finite sign mantissa exponent _ => .round format sign mantissa exponent
  | other => other

/-- The same number in double precision. -/
def widen (x : Float32) : Float :=
  .ofModel (.pack (fit .binary64 x.toModel.unpack))

/-- The nearest single precision number, a tie going to the even neighbour. -/
def narrow (x : Float) : Float32 :=
  .ofModel (.pack (fit .binary32 x.toModel.unpack))

def ofInt64 (n : Int64) : Float32 :=
  .ofModel (.ofInt64 n)

instance instNatCast : NatCast Float32 where
  natCast := Nat.toFloat32

/-- The number without its fraction, limited to 32 bits; not-a-number gives zero. -/
def toInt32 (x : Float32) : Int32 :=
  x.toModel.toInt32

/-- The number without its fraction, limited to 64 bits; not-a-number gives zero. -/
def toInt64 (x : Float32) : Int64 :=
  x.toModel.toInt64

/-- Whether the sign bit is set, which it is for the negative zero. -/
def isNegative (x : Float32) : Bool :=
  match x.toModel.unpack with
  | .notANumber => false
  | .infinity sign => sign == .negative
  | .zero sign => sign == .negative
  | .finite sign _ _ _ => sign == .negative

/-! ### Rounding to an integer -/

/-- Replaces a fraction by one of the two enclosing integers.  The test sees the sign, the fraction
and the unit it is a fraction of, and says whether the result moves away from zero.  A result of
zero keeps the sign. -/
def integral (away : Sign → Nat → Nat → Bool) (x : Float32) : Float32 :=
  .ofModel <| .pack <|
    match x.toModel.unpack with
    | .finite sign mantissa exponent hpos =>
      if 0 ≤ exponent then
        .finite sign mantissa exponent hpos
      else
        let unit := 1 <<< (-exponent).toNat
        let step := if away sign (mantissa % unit) unit then 1 else 0
        match mantissa / unit + step with
        | 0 => .zero sign
        | magnitude => .round .binary32 sign magnitude 0
    | other => other

def floor : Float32 → Float32 :=
  integral fun sign fraction _ => sign == .negative && fraction != 0

def ceil : Float32 → Float32 :=
  integral fun sign fraction _ => sign == .positive && fraction != 0

def trunc : Float32 → Float32 :=
  integral fun _ _ _ => false

/-- The nearest integer, a half going away from zero. -/
def round : Float32 → Float32 :=
  integral fun _ fraction unit => decide (unit ≤ 2 * fraction)

/-! ### Remainder, bounds and order -/

/-- The exact remainder of the division whose quotient has lost its fraction: it has the sign of the
dividend and is smaller than the divisor. -/
def remainder (dividend divisor : Float32) : Float32 :=
  match dividend.toModel.unpack, divisor.toModel.unpack with
  | .finite sign m₁ e₁ _, .finite _ m₂ e₂ _ =>
    let exponent := min e₁ e₂
    let left := m₁ <<< (e₁ - exponent).toNat
    let right := m₂ <<< (e₂ - exponent).toNat
    .ofModel <| .pack <|
      match left % right with
      | 0 => .zero sign
      | rest => .round .binary32 sign rest exponent
  | .finite .., .infinity _ => dividend
  | .zero _, .finite .. => dividend
  | .zero _, .infinity _ => dividend
  | _, _ => .ofModel (.pack .notANumber)

instance instMod : Mod Float32 where
  mod := remainder

/-- The greater of two numbers, or the only number among them. -/
def maximum (x y : Float32) : Float32 :=
  if x.isNaN then y else if y.isNaN then x else if x < y then y else x

/-- The lesser of two numbers, or the only number among them. -/
def minimum (x y : Float32) : Float32 :=
  if x.isNaN then y else if y.isNaN then x else if y < x then y else x

/-- The rank of a number in the total order of the format, in which the negative zero comes just
before the positive one and not-a-number after everything. -/
def rank (x : Float32) : Int :=
  let bits := x.toBits.toNat
  if bits < 0x80000000 then bits else 0x7FFFFFFF - bits

end MotionScript.Single
