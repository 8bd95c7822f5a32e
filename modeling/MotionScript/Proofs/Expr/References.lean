import MotionScript.Proofs.Environment.Grading
/-!
# The references of an expression

A name is reported as missing only by a reference that is evaluated and has no value.  An assignment
that combines reads its target in silence.  So what an evaluation reports is some of the references
of the expression, in the order of the text and none of them twice.
-/

namespace MotionScript

open MotionScript.Expr (Name)

/-- The names of the references in the expression, from left to right. -/
def Expr.references (e : Expr) : List Name :=
  e.collect (fun scope name => [(scope, name)]) fun _ _ _ => []

namespace Transcribed

variable {σ α β : Type}

/-- Wherever it goes on from, a program reports a list of names as missing that is allowed. -/
def Reports (allowed : List Name → Prop) (program : Transcribed (StateM σ) α) : Prop :=
  ∀ trail, ∃ reported, allowed reported ∧
    missed (program.runFrom trail).2.transcript = missed trail.transcript ++ reported

namespace Reports

variable {allowed allowedNext allowedAll : List Name → Prop}

theorem mono {program : Transcribed (StateM σ) α} (hreports : Reports allowed program)
    (hallowed : ∀ reported, allowed reported → allowedAll reported) :
    Reports allowedAll program := by
  intro trail
  obtain ⟨reported, hreported, hmissed⟩ := hreports trail
  exact ⟨reported, hallowed reported hreported, hmissed⟩

/-- What two programs report one after the other is reported by both together. -/
theorem bind {program : Transcribed (StateM σ) α} {next : α → Transcribed (StateM σ) β}
    (hfirst : Reports allowed program) (hnext : ∀ value, Reports allowedNext (next value))
    (hallowed : ∀ reported later, allowed reported → allowedNext later →
      allowedAll (reported ++ later)) : Reports allowedAll (program >>= next) := by
  intro trail
  obtain ⟨reported, hreported, hmissed⟩ := hfirst trail
  obtain ⟨later, hlater, hlaterMissed⟩ :=
    hnext (program.runFrom trail).1 (program.runFrom trail).2
  refine ⟨reported ++ later, hallowed reported later hreported hlater, ?_⟩
  rw [runFrom_bind, hlaterMissed, hmissed, List.append_assoc]

end Reports

/-- Wherever it goes on from, a program reports some of these names as missing, in this order. -/
def Misses (program : Transcribed (StateM σ) α) (names : List Name) : Prop :=
  Reports (List.Sublist · names) program

namespace Misses

variable {first second names : List Name}

theorem pure (value : α) : Misses (pure value : Transcribed (StateM σ) α) [] :=
  fun _ => ⟨[], .refl _, (List.append_nil _).symm⟩

theorem lift (action : StateM σ α) : Misses (StateT.lift action : Transcribed (StateM σ) α) [] :=
  fun _ => ⟨[], .refl _, (List.append_nil _).symm⟩

theorem write (request : Request) :
    Misses (Transcribed.write request : Transcribed (StateM σ) Unit) request.missed?.toList := by
  intro trail
  refine ⟨request.missed?.toList, .refl _, ?_⟩
  have hwritten : missed [request] = request.missed?.toList := by
    cases request <;> rfl
  rw [← hwritten, ← missed_append]
  rfl

theorem mono {program : Transcribed (StateM σ) α} (hmisses : Misses program first)
    (hsublist : first.Sublist second) : Misses program second :=
  Reports.mono hmisses fun _ hreported => hreported.trans hsublist

theorem bind {program : Transcribed (StateM σ) α} {next : α → Transcribed (StateM σ) β}
    (hfirst : Misses program first) (hnext : ∀ value, Misses (next value) second) :
    Misses (program >>= next) (first ++ second) :=
  Reports.bind hfirst hnext fun _ _ hreported hlater => hreported.append hlater

end Misses

/-- Programs with the names that they may report as missing. -/
def missing (σ : Type) : Grading (Transcribed (StateM σ)) :=
  ⟨Misses, .pure, .bind⟩

namespace Misses

variable [Environment (StateM σ)]

theorem resolve (scope : Scope) (name : String) :
    Misses (Environment.resolve scope name : Transcribed (StateM σ) (Option Float32)) [] :=
  (write (.resolve scope name)).bind fun _ => lift _

theorem assign (scope : Scope) (name : String) (value : Float32) :
    Misses (Environment.assign scope name value : Transcribed (StateM σ) Unit) [] :=
  (write (.assign scope name value)).bind fun _ => lift _

theorem reportMiss (scope : Scope) (name : String) :
    Misses (Environment.reportMiss scope name : Transcribed (StateM σ) Unit) [(scope, name)] :=
  (write (.miss scope name)).bind fun _ => lift _

theorem drawSample : Misses (Environment.drawSample : Transcribed (StateM σ) Float32) [] :=
  (lift _).bind fun sample => (write (.draw sample)).bind fun _ => pure sample

theorem reportOverflow : Misses (Environment.reportOverflow : Transcribed (StateM σ) Unit) [] :=
  (write .overflow).bind fun _ => lift _

theorem prepare : Misses (Environment.prepare : Transcribed (StateM σ) Unit) [] :=
  (write .prepare).bind fun _ => lift _

/-- Looking a name up reports at most that name. -/
theorem lookup (scope : Scope) (name : String) :
    Misses (Expr.lookup scope name : Transcribed (StateM σ) Float32) [(scope, name)] := by
  apply (resolve scope name).bind
  intro found
  cases found with
  | some value => exact (pure value).mono (List.nil_sublist _)
  | none => exact (missing σ).andThen (reportMiss scope name) fun _ => pure 0

/-- An assignment reports nothing, even if its target has no value yet. -/
theorem store (operator : AssignOp) (scope : Scope) (name : String) (new : Float32) :
    Misses (Expr.store operator scope name new : Transcribed (StateM σ) Float32) [] := by
  have hassign (value : Float32) : Misses
      (do Environment.assign scope name value; return value : Transcribed (StateM σ) Float32) [] :=
    (assign scope name value).bind fun _ => pure value
  cases operator with
  | set => exact (pure new).bind hassign
  | _ => exact (resolve scope name).bind fun stored => (pure _).bind hassign

/-- An evaluation reports no name but those of references, and each reference at most once. -/
theorem evaluate (e : Expr) :
    Misses (e.evaluate : Transcribed (StateM σ) Float32) e.references :=
  (missing σ).evaluate (.inr mono) lookup store drawSample reportOverflow

theorem result? (e : Expr) :
    Misses (e.result? : Transcribed (StateM σ) (Option Float32)) e.references :=
  prepare.bind fun _ => (missing σ).andThen (evaluate e) fun _ => pure _

theorem result (e : Expr) :
    Misses (e.result : Transcribed (StateM σ) Float32) e.references :=
  (missing σ).andThen (result? e) fun _ => pure _

end Misses

end Transcribed

end MotionScript
