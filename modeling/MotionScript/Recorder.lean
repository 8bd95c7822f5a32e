import MotionScript.Environment
import MotionScript.Table
/-!
# Recorded evaluation

A recorder is an environment that keeps a record of everything that evaluation asks of it, in the
order of asking.  It stores what is assigned in any scope, and its samples are a list that starts
over when it is used up.
-/

namespace MotionScript

/-- A request of an evaluation, with what was asked for or handed out. -/
inductive Request where
  | prepare
  | resolve (scope : Scope) (name : String)
  | assign (scope : Scope) (name : String) (value : Float32)
  | draw (sample : Float32)
  | miss (scope : Scope) (name : String)
  | overflow

structure Recorder where
  bindings : Table Expr.Name Float32
  samples : List Float32
  /-- How many samples were handed out. -/
  drawn : Nat
  /-- The requests so far. -/
  requests : List Request

namespace Recorder

/-- The sample that is handed out next, zero if there are none. -/
def nextSample (recorder : Recorder) : Float32 :=
  recorder.samples.getD (recorder.drawn % recorder.samples.length) 0

def note (request : Request) : StateM Recorder Unit :=
  modify fun recorder => { recorder with requests := recorder.requests ++ [request] }

def draw : StateM Recorder Float32 := do
  let sample := (← get).nextSample
  modify fun recorder => { recorder with drawn := recorder.drawn + 1 }
  return sample

instance : Environment (StateM Recorder) where
  resolve scope name := do
    note (.resolve scope name)
    return (← get).bindings.get? (scope, name)
  assign scope name value := do
    note (.assign scope name value)
    modify fun recorder =>
      { recorder with bindings := recorder.bindings.insert (scope, name) value }
  drawSample := do
    let sample ← draw
    note (.draw sample)
    return sample
  reportMiss scope name := note (.miss scope name)
  reportOverflow := note .overflow
  prepare := note .prepare

end Recorder

end MotionScript
