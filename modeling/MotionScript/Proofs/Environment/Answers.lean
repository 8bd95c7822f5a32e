import MotionScript.CurveTable
import MotionScript.Proofs.Curve.Footprint
import MotionScript.Proofs.Environment.Simulation
/-!
# Environments that answer alike

A simulation relates whole runs as soon as it relates single requests.  For one expression it is
enough to look at the names that the expression reads and writes; where all requests are related,
results of expressions, curves and sets of curves are related as well.
-/

namespace MotionScript

open MotionScript.Expr (Name)

/-- Without a value for any name nothing is substituted. -/
theorem Expr.substitute_none (e : Expr) : e.substitute (fun _ => none) = e := by
  have hmap {es : List Expr} (ih : ∀ e ∈ es, e.substitute (fun _ => none) = e) :
      es.map (Expr.substitute fun _ => none) = es :=
    (List.map_congr_left ih).trans (List.map_id es)
  induction e with
  | constant value => rfl
  | reference scope name => rfl
  | unary operator operand ih => rw [substitute, ih]
  | binary operator left right ihLeft ihRight => rw [substitute, ihLeft, ihRight]
  | conditional condition whenTrue whenFalse ihCondition ihTrue ihFalse =>
      rw [substitute, ihCondition, ihTrue, ihFalse]
  | assign operator scope name value ih => rw [substitute, ih]
  | sequence statements ih => rw [substitute, substituteAll_eq_map, hmap ih]
  | call function arguments ih => rw [substitute, substituteAll_eq_map, hmap ih]

namespace Simulation

theorem run_bind_eq {σ α β : Type} (program : StateM σ α) (next : α → StateM σ β) (state : σ) :
    (program >>= next).run state = (next (program.run state).1).run (program.run state).2 := rfl

/-- Programs that have the same value and leave related states wherever they start from related
states. -/
def ofStates {σ τ : Type} (related : σ → τ → Prop) : Simulation (StateM σ) (StateM τ) where
  Relates left right := ∀ leftState rightState, related leftState rightState →
    (left.run leftState).1 = (right.run rightState).1 ∧
      related (left.run leftState).2 (right.run rightState).2
  pure _ _ _ hrelated := ⟨rfl, hrelated⟩
  bind {_ _ left right leftNext rightNext} hfirst hnext leftState rightState hrelated := by
    obtain ⟨hvalue, hstates⟩ := hfirst _ _ hrelated
    have hrest := hnext (left.run leftState).1 _ _ hstates
    simp only [run_bind_eq, ← hvalue]
    exact hrest

/-- Programs that are the same once their transcript is forgotten. -/
def forgetting (m : Type → Type) [Monad m] [LawfulMonad m] : Simulation (Transcribed m) m where
  Relates transcribed plain := ∀ transcript, Prod.fst <$> transcribed.run transcript = plain
  pure value transcript := by simp
  bind {_ _ left right leftNext rightNext} hfirst hnext transcript := by
    simp only [StateT.run_bind, map_bind, hnext, ← hfirst transcript, bind_map_left]

variable {m n : Type → Type} [Monad m] [Monad n] [Environment m] [Environment n]
variable (simulation : Simulation m n)

/-- Every request of the one environment is related to the same request of the other. -/
structure AnswersAlike : Prop where
  resolve (scope : Scope) (name : String) :
    simulation.Relates (Environment.resolve scope name : m (Option Float32))
      (Environment.resolve scope name : n (Option Float32))
  assign (scope : Scope) (name : String) (value : Float32) :
    simulation.Relates (Environment.assign scope name value : m Unit)
      (Environment.assign scope name value : n Unit)
  drawSample :
    simulation.Relates (Environment.drawSample : m Float32) (Environment.drawSample : n Float32)
  reportMiss (scope : Scope) (name : String) :
    simulation.Relates (Environment.reportMiss scope name : m Unit)
      (Environment.reportMiss scope name : n Unit)
  reportOverflow :
    simulation.Relates (Environment.reportOverflow : m Unit) (Environment.reportOverflow : n Unit)
  prepare : simulation.Relates (Environment.prepare : m Unit) (Environment.prepare : n Unit)

variable {simulation}

/-- An expression runs alike in two environments if they agree on the names that it reads and
writes, and on samples if it may draw any. -/
theorem relates_evaluate_same [LawfulMonad m] {e : Expr}
    (hsample : e.isRandom = true → simulation.Relates (Environment.drawSample : m Float32)
      (Environment.drawSample : n Float32))
    (hmiss : ∀ (scope : Scope) (name : String),
      simulation.Relates (Environment.reportMiss scope name : m Unit)
        (Environment.reportMiss scope name : n Unit))
    (hoverflow : simulation.Relates (Environment.reportOverflow : m Unit)
      (Environment.reportOverflow : n Unit))
    (hreads : ∀ name ∈ e.reads,
      simulation.Relates (Environment.resolve name.1 name.2 : m (Option Float32))
        (Environment.resolve name.1 name.2 : n (Option Float32)))
    (hwrites : ∀ name ∈ e.writes, ∀ value : Float32,
      simulation.Relates (Environment.assign name.1 name.2 value : m Unit)
        (Environment.assign name.1 name.2 value : n Unit)) :
    simulation.Relates (e.evaluate : m Float32) (e.evaluate : n Float32) := by
  have hsubstituted : simulation.Relates ((e.substitute fun _ => none).evaluate : m Float32)
      (e.evaluate : n Float32) :=
    relates_evaluate hmiss hoverflow hsample hreads fun name hname => ⟨rfl, hwrites name hname⟩
  rwa [Expr.substitute_none] at hsubstituted

namespace AnswersAlike

variable (halike : simulation.AnswersAlike)
include halike

theorem relates_evaluate [LawfulMonad m] (e : Expr) :
    simulation.Relates (e.evaluate : m Float32) (e.evaluate : n Float32) :=
  relates_evaluate_same (fun _ => halike.drawSample) halike.reportMiss halike.reportOverflow
    (fun name _ => halike.resolve name.1 name.2) (fun name _ => halike.assign name.1 name.2)

theorem relates_result? [LawfulMonad m] (e : Expr) :
    simulation.Relates (e.result? : m (Option Float32)) (e.result? : n (Option Float32)) := by
  apply simulation.bind halike.prepare
  intro _
  exact simulation.bind (halike.relates_evaluate e) fun _ => simulation.pure _

theorem relates_result [LawfulMonad m] (e : Expr) :
    simulation.Relates (e.result : m Float32) (e.result : n Float32) :=
  simulation.bind (halike.relates_result? e) fun _ => simulation.pure _

end AnswersAlike

/-! ### Curves -/

section Curves

variable {ε α : Type} [NatCast α] [Add α] [Sub α] [Mul α] [Div α] [Neg α]
variable [LT α] [DecidableLT α] [BEq α]
variable {leftResolve : ε → m α} {rightResolve : ε → n α}

omit [Environment m] [Environment n]

/-- Segments of the same shape run alike if the expressions at their nodes do. -/
theorem relates_segment (x : α) {segment : Segment ε α}
    (hresolve : ∀ e ∈ segment.expressions,
      simulation.Relates (leftResolve e) (rightResolve e)) :
    simulation.Relates (segment.value leftResolve x) (segment.value rightResolve x) := by
  cases segment with
  | input => exact simulation.pure x
  | level value => exact hresolve value List.mem_cons_self
  | line start stop =>
      apply simulation.bind (hresolve start.value (by simp [Segment.expressions]))
      intro a
      apply simulation.bind (hresolve stop.value (by simp [Segment.expressions]))
      exact fun b => simulation.pure _
  | control a b c d =>
      apply simulation.bind (hresolve a (by simp [Segment.expressions]))
      intro a
      apply simulation.bind (hresolve b (by simp [Segment.expressions]))
      intro b
      apply simulation.bind (hresolve c (by simp [Segment.expressions]))
      intro c
      apply simulation.bind (hresolve d (by simp [Segment.expressions]))
      exact fun d => simulation.pure _
  | chain start stop =>
      apply simulation.bind (hresolve start.rightValue (by simp [Segment.expressions]))
      intro a
      apply simulation.bind (hresolve start.rightSlope (by simp [Segment.expressions]))
      intro startSlope
      apply simulation.bind (hresolve stop.leftValue (by simp [Segment.expressions]))
      intro d
      apply simulation.bind (hresolve stop.leftSlope (by simp [Segment.expressions]))
      exact fun stopSlope => simulation.pure _
  | spline before start stop after =>
      apply simulation.bind (hresolve before.value (by simp [Segment.expressions]))
      intro a
      apply simulation.bind (hresolve start.value (by simp [Segment.expressions]))
      intro b
      apply simulation.bind (hresolve stop.value (by simp [Segment.expressions]))
      intro c
      apply simulation.bind (hresolve after.value (by simp [Segment.expressions]))
      exact fun d => simulation.pure _

/-- A curve runs alike if the expressions that it can ask for do. -/
theorem relates_evaluateWith {curve : Curve ε α}
    (hresolve : ∀ e ∈ curve.expressions,
      simulation.Relates (leftResolve e) (rightResolve e)) :
    simulation.Relates (curve.evaluateWith leftResolve) (curve.evaluateWith rightResolve) := by
  unfold Curve.evaluateWith
  split
  · exact simulation.pure _
  · apply simulation.bind (hresolve curve.range Curve.range_mem_expressions)
    intro range
    split
    · exact simulation.pure _
    · apply simulation.bind (hresolve curve.input Curve.input_mem_expressions)
      intro input
      exact relates_segment _ fun e he => hresolve e (curve.expressions_segment_subset _ he)

end Curves

namespace AnswersAlike

variable [LawfulMonad m] (halike : simulation.AnswersAlike)
include halike

theorem relates_curve (curve : Curve Expr Float32) :
    simulation.Relates (curve.evaluate : m Float32) (curve.evaluate : n Float32) :=
  relates_evaluateWith fun e _ => halike.relates_result e

/-- Publishing curves runs alike in environments that answer alike. -/
theorem relates_publish (curves : List (String × Curve Expr Float32)) :
    simulation.Relates (CurveTable.publish curves : m Unit)
      (CurveTable.publish curves : n Unit) := by
  induction curves with
  | nil => exact simulation.pure ()
  | cons entry curves ih =>
      apply simulation.bind (halike.relates_curve entry.2)
      intro value
      exact simulation.bind (halike.assign .variable entry.1 value) fun _ => ih

theorem relates_update (set : CurveTable) :
    simulation.Relates (set.update : m Unit) (set.update : n Unit) :=
  halike.relates_publish set.entries

end AnswersAlike

end Simulation

/-! ### Runs with and without a transcript -/

namespace Transcribed

variable (m : Type → Type) [Monad m] [LawfulMonad m] [Environment m]

/-- Writing a transcript changes no answer. -/
theorem answersAlike_forgetting : (Simulation.forgetting m).AnswersAlike where
  resolve scope name transcript := by
    simp [Environment.resolve, write]
  assign scope name value transcript := by
    simp [Environment.assign, write]
  drawSample transcript := by
    simp [Environment.drawSample, write]
  reportMiss scope name transcript := by
    simp [Environment.reportMiss, write]
  reportOverflow transcript := by
    simp [Environment.reportOverflow, write]
  prepare transcript := by
    simp [Environment.prepare, write]

/-- An evaluation with a transcript is the evaluation itself, and a transcript. -/
theorem map_fst_run_evaluate (e : Expr) (transcript : List Request) :
    Prod.fst <$> (e.evaluate : Transcribed m Float32).run transcript = e.evaluate :=
  (answersAlike_forgetting m).relates_evaluate e transcript

end Transcribed

end MotionScript
