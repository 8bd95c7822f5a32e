import MotionScript.Proofs.Curve.Passes
import MotionScript.Proofs.Family.Operation
/-!
# Temps

Temps are for one evaluation only.  Two contexts without sources of the host that differ in nothing
but their temps do the same whenever each evaluation is prepared for: they give the same results,
make the same requests and differ in nothing but their temps afterwards.  The expressions of a curve
are evaluated apart from each other, so none of them sees a temp of another one.
-/

namespace MotionScript

namespace Operation

/-- Whether an operation prepares for each evaluation that it makes. -/
def isPass : Operation → Bool
  | .evaluate _ => false
  | _ => true

def performAll (operations : List Operation) : StateM Session (List Outcome) :=
  operations.mapM (perform Session.modifyContext)

/-- Does operations one after the other, with a transcript of their requests. -/
def transcribedAll (operations : List Operation) : Transcribed (StateM Session) (List Outcome) :=
  operations.mapM transcribed

def transcriptOfAll (operations : List Operation) (session : Session) : List Request :=
  ((transcribedAll operations).runFrom ⟨[], session⟩).2.transcript

theorem run_performAll_eq_runFrom (operations : List Operation) (session : Session) :
    (performAll operations).run session =
      (((transcribedAll operations).runFrom ⟨[], session⟩).1,
        ((transcribedAll operations).runFrom ⟨[], session⟩).2.state) := by
  have hforgetting : (Simulation.forgetting (StateM Session)).Relates (transcribedAll operations)
      (performAll operations) :=
    Simulation.relates_mapM _ fun operation _ => operation.relates_perform
      (Transcribed.answersAlike_forgetting _) fun _ _ _ => by simp
  rw [← hforgetting []]
  rfl

/-- What operations leave in the log is what their transcript reports as missing. -/
theorem log_run_performAll (operations : List Operation) (session : Session) :
    ((performAll operations).run session).2.log =
      session.log.recordAll (missed (transcriptOfAll operations session)) := by
  have haccounted : (Simulation.ofTrails fun left right : Trail Session =>
      left = right ∧ Accounted session.log left).Relates (transcribedAll operations)
        (transcribedAll operations) :=
    Simulation.relates_mapM _ fun operation _ => Accounted.relates_transcribed session.log operation
  have hstart : Accounted session.log ⟨[], session⟩ := rfl
  rw [run_performAll_eq_runFrom]
  exact (haccounted _ _ ⟨rfl, hstart⟩).2.2

end Operation

/-! ### Two runs -/

/-- Two trails with the same requests so far, in contexts without sources of the host that are the
same as far as `view` shows. -/
structure SameThrough (view : Context → Context) (left right : Trail Session) : Prop where
  transcript : left.transcript = right.transcript
  leftFixed : left.state.context.IsFixed
  rightFixed : right.state.context.IsFixed
  context : view left.state.context = view right.state.context

namespace SameThrough

open Simulation

variable {view : Context → Context}

/-- A change of which the view shows all that it shows of the result. -/
theorem relates_lift {change : Context → Context}
    (hfixed : ∀ context : Context, context.IsFixed → (change context).IsFixed)
    (hview : ∀ left right, view left = view right → view (change left) = view (change right)) :
    (ofTrails (SameThrough view)).Relates (StateT.lift (Session.modifyContext change))
      (StateT.lift (Session.modifyContext change)) := by
  intro left right hsame
  exact ⟨rfl, hsame.transcript, hfixed _ hsame.leftFixed, hfixed _ hsame.rightFixed,
    hview _ _ hsame.context⟩

theorem relates_write (request : Request) :
    (ofTrails (SameThrough view)).Relates (Transcribed.write request)
      (Transcribed.write request) := by
  intro left right hsame
  exact ⟨rfl, congrArg (· ++ [request]) hsame.transcript, hsame.leftFixed, hsame.rightFixed,
    hsame.context⟩

theorem relates_assign {scope : Scope} {name : String} {value : Float32}
    (hview : ∀ left right, view left = view right →
      view (left.assign scope name value) = view (right.assign scope name value)) :
    (ofTrails (SameThrough view)).Relates (Environment.assign scope name value)
      (Environment.assign scope name value) := by
  apply Simulation.bind _ (relates_write _)
  exact fun _ => relates_lift (fun _ hfixed => hfixed.assign scope name value) hview

theorem relates_prepare
    (hview : ∀ left right, view left = view right →
      view left.withoutTemps = view right.withoutTemps) :
    (ofTrails (SameThrough view)).Relates Environment.prepare Environment.prepare := by
  apply Simulation.bind _ (relates_write _)
  exact fun _ => relates_lift (fun _ hfixed => hfixed) hview

/-- Contexts that differ in their temps alone are the same once an evaluation is prepared for. -/
theorem afterPrepare {left right : Trail Session}
    (hsame : SameThrough Context.withoutTemps left right) :
    SameThrough id (Transcribed.runFrom left Environment.prepare).2
      (Transcribed.runFrom right Environment.prepare).2 where
  transcript := congrArg (· ++ [Request.prepare]) hsame.transcript
  leftFixed := hsame.leftFixed
  rightFixed := hsame.rightFixed
  context := hsame.context

/-- The same context answers alike, whatever its log and its host are. -/
theorem answersAlike : (ofTrails (SameThrough id)).AnswersAlike where
  resolve scope name left right hsame := by
    have hcontext : left.state.context = right.state.context := hsame.context
    rw [Session.runFrom_resolve_of_isFixed left scope name hsame.leftFixed,
      Session.runFrom_resolve_of_isFixed right scope name hsame.rightFixed, hcontext]
    exact ⟨rfl, by rw [hsame.transcript], hsame.leftFixed, hsame.rightFixed, hsame.context⟩
  assign scope name value :=
    relates_assign fun _ _ hsame => congrArg (Context.assign · scope name value) hsame
  drawSample left right hsame := by
    have hrandom : left.state.context.random = right.state.context.random :=
      congrArg Context.random hsame.context
    rw [Session.runFrom_drawSample, Session.runFrom_drawSample]
    refine Random.nextUnit_related hrandom left.afterDraw right.afterDraw fun drawn => ?_
    exact ⟨congrArg (· ++ [Request.draw drawn.1]) hsame.transcript, hsame.leftFixed,
      hsame.rightFixed,
      congrArg (fun context : Context => { context with random := drawn.2 }) hsame.context⟩
  reportMiss scope name left right hsame := by
    rw [Session.runFrom_reportMiss, Session.runFrom_reportMiss]
    exact ⟨rfl, by rw [hsame.transcript], hsame.leftFixed, hsame.rightFixed, hsame.context⟩
  reportOverflow left right hsame :=
    ⟨rfl, congrArg (· ++ [Request.overflow]) hsame.transcript, hsame.leftFixed, hsame.rightFixed,
      hsame.context⟩
  prepare := relates_prepare fun _ _ hsame => congrArg Context.withoutTemps hsame

/-- Trails that are the same are the same without their temps. -/
theorem withoutTemps {left right : Trail Session} (hsame : SameThrough id left right) :
    SameThrough Context.withoutTemps left right where
  transcript := hsame.transcript
  leftFixed := hsame.leftFixed
  rightFixed := hsame.rightFixed
  context := congrArg Context.withoutTemps hsame.context

/-! ### Contexts that differ in their temps -/

theorem relates_assign_withoutTemps (scope : Scope) (name : String) (value : Float32) :
    (ofTrails (SameThrough Context.withoutTemps)).Relates (Environment.assign scope name value)
      (Environment.assign scope name value) := by
  apply relates_assign
  intro left right hsame
  rw [Context.withoutTemps_assign, Context.withoutTemps_assign, hsame]

theorem relates_result? (e : Expr) :
    (ofTrails (SameThrough Context.withoutTemps)).Relates e.result? e.result? := by
  intro left right hsame
  -- What comes after the preparation starts in one and the same context.
  have hevaluate := (ofTrails (SameThrough id)).bind (answersAlike.relates_evaluate e) fun value =>
    (ofTrails (SameThrough id)).pure (if value.isFinite then some value else none)
  obtain ⟨hvalue, hend⟩ := hevaluate _ _ hsame.afterPrepare
  exact ⟨hvalue, hend.withoutTemps⟩

theorem relates_result (e : Expr) :
    (ofTrails (SameThrough Context.withoutTemps)).Relates e.result e.result :=
  Simulation.bind _ (relates_result? e) fun _ => Simulation.pure _ _

theorem relates_curve (curve : Curve Expr Float32) :
    (ofTrails (SameThrough Context.withoutTemps)).Relates curve.evaluate curve.evaluate :=
  relates_evaluateWith fun e _ => relates_result e

theorem relates_publish (entries : List (String × Curve Expr Float32)) :
    (ofTrails (SameThrough Context.withoutTemps)).Relates (CurveTable.publish entries)
      (CurveTable.publish entries) := by
  induction entries with
  | nil => exact Simulation.pure _ ()
  | cons entry entries ih =>
      apply Simulation.bind _ (relates_curve entry.2)
      intro value
      exact Simulation.bind _ (relates_assign_withoutTemps .variable entry.1 value) fun _ => ih

/-- An operation that prepares for its evaluations does the same whatever the temps are. -/
theorem relates_transcribed {operation : Operation} (hpass : operation.isPass = true) :
    (ofTrails (SameThrough Context.withoutTemps)).Relates operation.transcribed
      operation.transcribed := by
  have hdone {program : Transcribed (StateM Session) Unit}
      (hprogram : (ofTrails (SameThrough Context.withoutTemps)).Relates program program) :
      (ofTrails (SameThrough Context.withoutTemps)).Relates
        (do program; return Outcome.done) (do program; return Outcome.done) :=
    Simulation.bind _ hprogram fun _ => Simulation.pure _ Outcome.done
  cases operation with
  | setVariable name value =>
      exact hdone (relates_lift (fun _ hfixed => hfixed) fun _ _ hsame =>
        congrArg (Context.withVariable · name value) hsame)
  | setQuery name value =>
      exact hdone (relates_lift (fun _ hfixed => hfixed.withQuery name value) fun _ _ hsame =>
        congrArg (Context.withQuery · name (.fixed value)) hsame)
  | setContext name value =>
      exact hdone (relates_lift (fun _ hfixed => hfixed) fun _ _ hsame =>
        congrArg (Context.withContext · name value) hsame)
  | assign scope name value => exact hdone (relates_assign_withoutTemps scope name value)
  | clearVariables =>
      exact hdone (relates_lift (fun _ hfixed => hfixed) fun _ _ hsame =>
        congrArg Context.withoutVariables hsame)
  | prepare => exact hdone (relates_prepare fun _ _ hsame => hsame)
  | evaluate e => cases hpass
  | result e => exact Simulation.bind _ (relates_result e) fun _ => Simulation.pure _ _
  | result? e => exact Simulation.bind _ (relates_result? e) fun _ => Simulation.pure _ _
  | evaluateCurve curve =>
      exact Simulation.bind _ (relates_curve curve) fun _ => Simulation.pure _ _
  | updateCurves set => exact hdone (relates_publish set.entries)

end SameThrough

/-! ### Temps of a pass -/

def Session.replaceTemps (temps : Context → Table String Float32) : StateM Session Unit :=
  modifyContext fun context => { context with tempValues := temps context }

/-- What is done to the temps before an expression is evaluated on its own makes no difference. -/
theorem Session.replaceTemps_result (temps : Context → Table String Float32) (e : Expr) :
    (do Session.replaceTemps temps; e.result) = (e.result : StateM Session Float32) := rfl

/-- In contexts without sources of the host that differ in their temps alone, operations that
prepare for each evaluation give the same results and make the same requests: they assign the same
values, draw the same samples and report the same names to their logs, all in the same order.
Afterwards the contexts differ in their temps alone.  Of the expressions of a curve, none depends on
the temps that the one before it leaves, or on any others that are put in their place. -/
theorem passes_ignore_temps :
    (∀ left right : Session, left.context.IsFixed →
        left.context.withoutTemps = right.context.withoutTemps →
        ∀ operations : List Operation, (∀ operation ∈ operations, operation.isPass = true) →
          let leftRun := (Operation.performAll operations).run left
          let rightRun := (Operation.performAll operations).run right
          leftRun.1 = rightRun.1 ∧
            leftRun.2.context.withoutTemps = rightRun.2.context.withoutTemps ∧
            ∃ requests, Operation.transcriptOfAll operations left = requests ∧
              Operation.transcriptOfAll operations right = requests ∧
              leftRun.2.log = left.log.recordAll (missed requests) ∧
              rightRun.2.log = right.log.recordAll (missed requests)) ∧
      ∀ (curve : Curve Expr Float32) (temps : Expr → Context → Table String Float32),
        (curve.evaluateWith fun e => do Session.replaceTemps (temps e); e.result) =
          (curve.evaluate : StateM Session Float32) := by
  constructor
  · intro left right hfixed hsame operations hpasses leftRun rightRun
    have hstart : SameThrough Context.withoutTemps ⟨[], left⟩ ⟨[], right⟩ := by
      refine ⟨rfl, hfixed, ?_, hsame⟩
      rw [← Context.isFixed_withoutTemps, ← hsame]
      exact hfixed
    have hrelates : (Simulation.ofTrails (SameThrough Context.withoutTemps)).Relates
        (Operation.transcribedAll operations) (Operation.transcribedAll operations) :=
      Simulation.relates_mapM _ fun operation hmem =>
        SameThrough.relates_transcribed (hpasses operation hmem)
    obtain ⟨hresults, hend⟩ := hrelates _ _ hstart
    have hrequests : Operation.transcriptOfAll operations left =
        Operation.transcriptOfAll operations right := hend.transcript
    simp only [leftRun, rightRun]
    refine ⟨?_, ?_, _, rfl, hrequests.symm, Operation.log_run_performAll operations left, ?_⟩
    · rw [Operation.run_performAll_eq_runFrom, Operation.run_performAll_eq_runFrom, hresults]
    · rw [Operation.run_performAll_eq_runFrom, Operation.run_performAll_eq_runFrom]
      exact hend.context
    · rw [hrequests]
      exact Operation.log_run_performAll operations right
  · intro curve temps
    exact congrArg curve.evaluateWith (funext fun e => Session.replaceTemps_result (temps e) e)

/-- Every expression reads the temp that one of the contexts has, and those of the curve write it
for the next one. -/
theorem passes_ignore_temps_left_over :
    let e : Expr := .binary .add (.reference .temp "t") (.reference .variable "missing")
    let next : Expr := .assign .add .temp "t" (.constant 1)
    let curve : Curve Expr Float32 := ⟨.linear, [.plain next 0 next, .plain next 1 next], e, next⟩
    let set : CurveTable := (∅ : CurveTable).insert "wave" curve
    let operations : List Operation := [.result e, .assign .temp "t" 3, .evaluateCurve curve,
      .updateCurves set, .result? (.reference .variable "wave")]
    let left : Session := ⟨(Context.ofSeed 7).withTemp "t" 5, MissLog.ofWindow 0, []⟩
    let right : Session := ⟨Context.ofSeed 7, MissLog.ofWindow 9, []⟩
    (left.context.IsFixed ∧ left.context.withoutTemps = right.context.withoutTemps ∧
        (∀ operation ∈ operations, operation.isPass = true) ∧
        left.context.tempValues.get? "t" = some 5) ∧
      ((Operation.performAll operations).run left).1 =
        ((Operation.performAll operations).run right).1 ∧
      ((Operation.performAll operations).run left).2.context.withoutTemps =
        ((Operation.performAll operations).run right).2.context.withoutTemps ∧
      Operation.transcriptOfAll operations left = Operation.transcriptOfAll operations right := by
  intro e next curve set operations left right
  have hfixed : left.context.IsFixed := Context.isFixed_ofSeed 7
  have hpasses : ∀ operation ∈ operations, operation.isPass = true := by
    simp [operations, Operation.isPass]
  obtain ⟨hresults, hcontexts, requests, hleft, hright, -, -⟩ :=
    passes_ignore_temps.1 left right hfixed rfl operations hpasses
  exact ⟨⟨hfixed, rfl, hpasses, rfl⟩, hresults, hcontexts, hleft.trans hright.symm⟩

end MotionScript
