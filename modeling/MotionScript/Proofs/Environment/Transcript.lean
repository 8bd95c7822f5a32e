import MotionScript.Recorder
/-!
# Transcripts

An environment can be asked through a transcript, which writes down every request together with
what was asked for or handed out, and leaves the answer to the environment.  Programs that leave the
same transcript ask for the same things in the same order.
-/

namespace MotionScript

/-- Whether a request is more than the reading of a name. -/
def Request.isEffect : Request → Bool
  | .resolve _ _ => false
  | _ => true

/-- The assignments, samples, missed names and overflows of a transcript. -/
def effects (transcript : List Request) : List Request :=
  transcript.filter Request.isEffect

theorem effects_append (transcript requests : List Request) :
    effects (transcript ++ requests) = effects transcript ++ effects requests :=
  List.filter_append transcript requests

/-- Reading a name has no effect. -/
theorem effects_append_resolve (transcript : List Request) (scope : Scope) (name : String) :
    effects (transcript ++ [.resolve scope name]) = effects transcript := by
  simp [effects, Request.isEffect]

def Request.resolved? : Request → Option Expr.Name
  | .resolve scope name => some (scope, name)
  | _ => none

def Request.missed? : Request → Option Expr.Name
  | .miss scope name => some (scope, name)
  | _ => none

def resolved (transcript : List Request) : List Expr.Name :=
  transcript.filterMap Request.resolved?

def missed (transcript : List Request) : List Expr.Name :=
  transcript.filterMap Request.missed?

theorem resolved_append (transcript requests : List Request) :
    resolved (transcript ++ requests) = resolved transcript ++ resolved requests :=
  List.filterMap_append

theorem missed_append (transcript requests : List Request) :
    missed (transcript ++ requests) = missed transcript ++ missed requests :=
  List.filterMap_append

/-- Programs over the environment `m` that leave a transcript of their requests. -/
abbrev Transcribed (m : Type → Type) : Type → Type :=
  StateT (List Request) m

namespace Transcribed

variable {m : Type → Type} [Monad m]

def write (request : Request) : Transcribed m Unit :=
  modify (· ++ [request])

variable [Environment m]

instance : Environment (Transcribed m) where
  resolve scope name := do
    write (.resolve scope name)
    StateT.lift (Environment.resolve scope name)
  assign scope name value := do
    write (.assign scope name value)
    StateT.lift (Environment.assign scope name value)
  drawSample := do
    let sample ← StateT.lift (Environment.drawSample : m Float32)
    write (.draw sample)
    return sample
  reportMiss scope name := do
    write (.miss scope name)
    StateT.lift (Environment.reportMiss scope name)
  reportOverflow := do
    write .overflow
    StateT.lift Environment.reportOverflow
  prepare := do
    write .prepare
    StateT.lift Environment.prepare

end Transcribed

/-! ### Environments with a state -/

/-- A state, and the transcript of what led to it. -/
structure Trail (σ : Type) where
  transcript : List Request
  state : σ

namespace Transcribed

variable {σ α β : Type}

/-- The value of a program that goes on from a trail, and the trail that it leaves. -/
def runFrom (trail : Trail σ) (program : Transcribed (StateM σ) α) : α × Trail σ :=
  let ((value, transcript), state) := (program.run trail.transcript).run trail.state
  (value, ⟨transcript, state⟩)

theorem runFrom_pure (trail : Trail σ) (value : α) :
    runFrom trail (pure value) = (value, trail) := rfl

theorem runFrom_bind (trail : Trail σ) (program : Transcribed (StateM σ) α)
    (next : α → Transcribed (StateM σ) β) :
    runFrom trail (program >>= next) =
      runFrom (runFrom trail program).2 (next (runFrom trail program).1) := rfl

end Transcribed

end MotionScript
