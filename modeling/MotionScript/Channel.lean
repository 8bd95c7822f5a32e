import MotionScript.Keyframe
import MotionScript.Timeline
/-!
# Channels

A channel is a list of keyframes in the order of their times.  Sampling it gives the value of a key
at its time, holds the first and the last value outside, and runs on a segment between two keys.
-/

namespace MotionScript

structure Channel where
  keys : List (Keyframe Float32)

namespace Channel

/-- The channel of keys in any order. -/
def ofKeys (keys : List (Keyframe Float32)) : Except ConstructionFault Channel :=
  (Timeline.ofEntries Keyframe.time .keyTimeNotFinite keys).map Channel.mk

def isEmpty (channel : Channel) : Bool :=
  channel.keys.isEmpty

def blank : Triple Float32 := ⟨0, 0, 0⟩

/-- The value at `t` between two keys, given the keys passed before them, the latest first, and the
keys that follow. -/
def between (t : Float32) (start : Keyframe Float32) (passed : List (Keyframe Float32))
    (stop : Keyframe Float32) (following : List (Keyframe Float32)) : Triple Float32 :=
  Keyframe.segment (passed.headD start) start stop (following.headD stop)
    (progress start.time stop.time t)

def sample (channel : Channel) (t : Float32) : Triple Float32 :=
  let isPassed (key : Keyframe Float32) : Bool := !decide (t ≤ key.time)
  match (channel.keys.takeWhile isPassed).reverse, channel.keys.dropWhile isPassed with
  | [], [] => blank
  | last :: _, [] => if last.time ≤ t then last.value else blank
  | [], stop :: _ => stop.value
  | start :: passed, stop :: following =>
    if stop.time ≤ t then stop.value else between t start passed stop following

end Channel

end MotionScript
