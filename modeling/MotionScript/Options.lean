import MotionScript.Expr.Parser.Grammar
import MotionScript.MissLog
/-!
# Options

How source text becomes templates, and what contexts are made of.
-/

namespace MotionScript

/-- How source text becomes a template. -/
structure ParseOptions where
  /-- Whether templates are simplified. -/
  simplify : Bool
  /-- Whether a text that was compiled before gives the same template again. -/
  cache : Bool
  /-- The deepest nesting that is accepted. -/
  maxDepth : Nat

/-- The options that are in force where nothing else is said. -/
def ParseOptions.standard : ParseOptions where
  simplify := true
  cache := true
  maxDepth := Expr.defaultLimit

structure HostOptions where
  parse : ParseOptions
  /-- The window of the log of unbound names, in milliseconds. -/
  logWindow : Nat
  /-- The seed of the random numbers, if they are to be the same in every run. -/
  seed : Option Nat

def HostOptions.standard : HostOptions where
  parse := .standard
  logWindow := MissLog.defaultWindow
  seed := none

end MotionScript
