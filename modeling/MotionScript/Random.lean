import MotionScript.Number.Single
/-!
# Random numbers

A small deterministic generator: its state advances by a fixed odd step, and each output is the
state after two rounds of shifting and multiplying.
-/

namespace MotionScript

structure Random where
  state : UInt64
deriving DecidableEq

namespace Random

/-- The distance between two states. -/
def step : UInt64 := 0x9E3779B97F4A7C15

def scramble (state : UInt64) : UInt64 :=
  let first := (state ^^^ (state >>> 30)) * 0xBF58476D1CE4E5B9
  let second := (first ^^^ (first >>> 27)) * 0x94D049BB133111EB
  second ^^^ (second >>> 31)

def next (random : Random) : UInt64 × Random :=
  let state := random.state + step
  (scramble state, ⟨state⟩)

def unitFraction (k : Nat) : Float32 :=
  k.toFloat32 * (1 / (1 <<< 24 : Nat).toFloat32)

/-- The next sample of the unit interval without its upper end, made of the upper 24 bits. -/
def nextUnit (random : Random) : Float32 × Random :=
  let (bits, random) := random.next
  (unitFraction (bits >>> 40).toNat, random)

end Random

end MotionScript
