import MotionScript.Expr.Basic
import MotionScript.Table
/-!
# Log of unbound names

Every reading of a name without a value is counted, and a warning is due for a name at most once in
a window of time.  The log holds the present time, which only its owner moves.
-/

namespace MotionScript

structure MissLog where
  /-- The least time between two warnings about a name, in milliseconds. -/
  window : Nat
  /-- The present time, in milliseconds. -/
  clock : Nat
  /-- When each name was last warned about. -/
  lastWarned : Table Expr.Name Nat
  /-- The readings counted. -/
  misses : Nat
  /-- The warnings given. -/
  warnings : Nat

namespace MissLog

def ofWindow (window : Nat) : MissLog :=
  ⟨window, 0, ∅, 0, 0⟩

/-- The window of a log that is given none: ten seconds. -/
def defaultWindow : Nat := 10000

def isDue (log : MissLog) (name : Expr.Name) : Bool :=
  match log.lastWarned.get? name with
  | some time => decide (log.window ≤ log.clock - time)
  | none => true

/-- Counts the reading of a name, and says whether a warning was given. -/
def record (log : MissLog) (name : Expr.Name) : Bool × MissLog :=
  let counted := { log with misses := log.misses + 1 }
  if log.isDue name then
    (true, { counted with
      lastWarned := log.lastWarned.insert name log.clock
      warnings := log.warnings + 1 })
  else
    (false, counted)

def wait (log : MissLog) (milliseconds : Nat) : MissLog :=
  { log with clock := log.clock + milliseconds }

@[simp]
theorem misses_record (log : MissLog) (name : Expr.Name) :
    (log.record name).2.misses = log.misses + 1 := by
  unfold record
  split <;> rfl

theorem warnings_record (log : MissLog) (name : Expr.Name) :
    (log.record name).2.warnings = log.warnings + if (log.record name).1 then 1 else 0 := by
  unfold record
  split <;> simp

end MissLog

end MotionScript
