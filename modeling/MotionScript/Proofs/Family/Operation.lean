import MotionScript.Proofs.Context.View
import MotionScript.Proofs.Environment.Answers
import MotionScript.Proofs.MissLog.Totals
/-!
# Operations of a member

What can be done with a context of a family.  A context without sources of the host needs nothing
but itself for it: in place of a log a ledger is enough, on which the names without a value are
written down and which is never read.  What an operation does to a log can be read off the ledger
afterwards.
-/

namespace MotionScript

open MotionScript.Expr (Name)

/-- What is done with a context; queries are set to values and not to sources of the host. -/
inductive Operation where
  | setVariable (name : String) (value : Float32)
  | setQuery (name : String) (value : Float32)
  | setContext (name : String) (value : Float32)
  | assign (scope : Scope) (name : String) (value : Float32)
  | clearVariables
  | prepare
  | evaluate (e : Expr)
  | result (e : Expr)
  | result? (e : Expr)
  | evaluateCurve (curve : Curve Expr Float32)
  | updateCurves (set : CurveTable)

inductive Outcome where
  | done
  | value (value : Float32)
  | value? (value : Option Float32)

namespace Operation

section Perform

variable {m : Type → Type} [Monad m] [Environment m]

/-- Does an operation, given how the context of the environment is changed by its owner. -/
def perform (change : (Context → Context) → m Unit) : Operation → m Outcome
  | .setVariable name value => do
    change (·.withVariable name value)
    return .done
  | .setQuery name value => do
    change (·.withQuery name (.fixed value))
    return .done
  | .setContext name value => do
    change (·.withContext name value)
    return .done
  | .assign scope name value => do
    Environment.assign scope name value
    return .done
  | .clearVariables => do
    change Context.withoutVariables
    return .done
  | .prepare => do
    Environment.prepare
    return .done
  | .evaluate e => return .value (← e.evaluate)
  | .result e => return .value (← e.result)
  | .result? e => return .value? (← e.result?)
  | .evaluateCurve curve => return .value (← curve.evaluate)
  | .updateCurves set => do
    set.update
    return .done

end Perform

/-- Operations run alike in environments that answer alike, if the owners' changes are related as
long as they set no query to a source of the host. -/
theorem relates_perform {m n : Type → Type} [Monad m] [LawfulMonad m] [Monad n] [Environment m]
    [Environment n] {simulation : Simulation m n} (halike : simulation.AnswersAlike)
    {leftChange : (Context → Context) → m Unit} {rightChange : (Context → Context) → n Unit}
    (hchange : ∀ change : Context → Context,
      (∀ context : Context, context.IsFixed → (change context).IsFixed) →
        simulation.Relates (leftChange change) (rightChange change))
    (operation : Operation) :
    simulation.Relates (operation.perform leftChange) (operation.perform rightChange) := by
  have hdone {left : m Unit} {right : n Unit} (hrelates : simulation.Relates left right) :
      simulation.Relates (do left; return Outcome.done) (do right; return Outcome.done) :=
    simulation.bind hrelates fun _ => simulation.pure Outcome.done
  cases operation with
  | setVariable name value => exact hdone (hchange _ fun _ hfixed => hfixed)
  | setQuery name value => exact hdone (hchange _ fun _ hfixed => hfixed.withQuery name value)
  | setContext name value => exact hdone (hchange _ fun _ hfixed => hfixed)
  | assign scope name value => exact hdone (halike.assign scope name value)
  | clearVariables => exact hdone (hchange _ fun _ hfixed => hfixed)
  | prepare => exact hdone halike.prepare
  | evaluate e => exact simulation.bind (halike.relates_evaluate e) fun _ => simulation.pure _
  | result e => exact simulation.bind (halike.relates_result e) fun _ => simulation.pure _
  | result? e => exact simulation.bind (halike.relates_result? e) fun _ => simulation.pure _
  | evaluateCurve curve =>
      exact simulation.bind (halike.relates_curve curve) fun _ => simulation.pure _
  | updateCurves set => exact hdone (halike.relates_update set)

/-! ### Operations with a transcript -/

/-- An operation in a session, with a transcript of its requests. -/
def transcribed (operation : Operation) : Transcribed (StateM Session) Outcome :=
  operation.perform fun change => StateT.lift (Session.modifyContext change)

def transcript (operation : Operation) (session : Session) : List Request :=
  (operation.transcribed.runFrom ⟨[], session⟩).2.transcript

/-- Writing a transcript changes nothing about an operation. -/
theorem run_perform_eq_runFrom (operation : Operation) (trail : Trail Session) :
    (operation.perform Session.modifyContext).run trail.state =
      ((operation.transcribed.runFrom trail).1, (operation.transcribed.runFrom trail).2.state) := by
  have hforgetting : (Simulation.forgetting (StateM Session)).Relates operation.transcribed
      (operation.perform Session.modifyContext) :=
    operation.relates_perform (Transcribed.answersAlike_forgetting _) fun _ _ _ => by simp
  rw [← hforgetting trail.transcript]
  rfl

end Operation

/-- The log of a trail has counted the names that the transcript reports, since it was `log`. -/
def Accounted (log : MissLog) (trail : Trail Session) : Prop :=
  trail.state.log = log.recordAll (missed trail.transcript)

namespace Accounted

variable {log : MissLog} {trail : Trail Session}

/-- A request that is no report leaves the log. -/
theorem concat (haccounted : Accounted log trail) {request : Request}
    (hquiet : request.missed? = none) {session : Session} (hlog : session.log = trail.state.log) :
    Accounted log ⟨trail.transcript ++ [request], session⟩ := by
  have hmissed : missed (trail.transcript ++ [request]) = missed trail.transcript := by
    simp [missed, hquiet]
  rw [Accounted, hlog, hmissed]
  exact haccounted

/-- In a session the log counts what the transcript reports, and nothing else. -/
theorem answersAlike (log : MissLog) :
    (Simulation.ofTrails fun left right : Trail Session =>
      left = right ∧ Accounted log left).AnswersAlike where
  resolve scope name trail other := by
    rintro ⟨rfl, haccounted⟩
    refine ⟨rfl, rfl, ?_⟩
    cases hprovider : trail.state.context.provider? (scope, name) with
    | none =>
        rw [Session.runFrom_resolve_of_none trail scope name hprovider]
        exact haccounted.concat rfl rfl
    | some provider =>
        rw [Session.runFrom_resolve_of_some trail scope name hprovider]
        exact haccounted.concat rfl rfl
  assign scope name value trail other := by
    rintro ⟨rfl, haccounted⟩
    exact ⟨rfl, rfl, haccounted.concat rfl rfl⟩
  drawSample trail other := by
    rintro ⟨rfl, haccounted⟩
    exact ⟨rfl, rfl, haccounted.concat rfl rfl⟩
  reportMiss scope name trail other := by
    rintro ⟨rfl, haccounted⟩
    refine ⟨rfl, rfl, ?_⟩
    rw [Session.runFrom_reportMiss, Accounted, missed_append]
    exact (congrArg (fun log => (log.record (scope, name)).2) haccounted).trans
      (MissLog.recordAll_concat log (missed trail.transcript) (scope, name)).symm
  reportOverflow trail other := by
    rintro ⟨rfl, haccounted⟩
    exact ⟨rfl, rfl, haccounted.concat rfl rfl⟩
  prepare trail other := by
    rintro ⟨rfl, haccounted⟩
    exact ⟨rfl, rfl, haccounted.concat rfl rfl⟩

end Accounted

theorem Accounted.relates_transcribed (log : MissLog) (operation : Operation) :
    (Simulation.ofTrails fun left right : Trail Session =>
      left = right ∧ Accounted log left).Relates operation.transcribed operation.transcribed := by
  apply operation.relates_perform (Accounted.answersAlike log)
  rintro change _ trail _ ⟨rfl, htrail⟩
  exact ⟨rfl, rfl, htrail⟩

/-- An operation calls the log of its session for the names that its transcript reports. -/
theorem Operation.log_run_perform (operation : Operation) (session : Session) :
    ((operation.perform Session.modifyContext).run session).2.log =
      session.log.recordAll (missed (operation.transcript session)) := by
  have hstart : Accounted session.log ⟨[], session⟩ := rfl
  rw [operation.run_perform_eq_runFrom ⟨[], session⟩]
  exact (Accounted.relates_transcribed session.log operation _ _ ⟨rfl, hstart⟩).2.2

/-! ### Ledgers -/

/-- A context with a list of the names that were read without a value. -/
structure Ledger where
  context : Context
  missed : List Name

namespace Ledger

def modifyContext (change : Context → Context) : StateM Ledger Unit :=
  modify fun ledger => { ledger with context := change ledger.context }

instance : Environment (StateM Ledger) where
  resolve scope name := return (← get).context.value? (scope, name)
  assign scope name value := modifyContext (·.assign scope name value)
  drawSample := do
    let ledger ← get
    let (sample, context) := ledger.context.drawRandom
    set { ledger with context }
    return sample
  reportMiss scope name :=
    modify fun ledger => { ledger with missed := ledger.missed ++ [(scope, name)] }
  reportOverflow := return ()
  prepare := modifyContext Context.withoutTemps

/-- A session has the context of a ledger, which has no source of the host, and its log has counted
the names of the ledger since it was `log`. -/
structure Accounts (log : MissLog) (host : Host) (session : Session) (ledger : Ledger) : Prop where
  context : session.context = ledger.context
  isFixed : ledger.context.IsFixed
  log : session.log = log.recordAll ledger.missed
  host : session.host = host

variable {log : MissLog} {host : Host}

theorem relates_change {change : Context → Context}
    (hchange : ∀ context : Context, context.IsFixed → (change context).IsFixed) :
    (Simulation.ofStates (Accounts log host)).Relates (Session.modifyContext change)
      (modifyContext change) := by
  intro session ledger haccounts
  obtain ⟨hcontext, hfixed, hlog, hhost⟩ := haccounts
  exact ⟨rfl, congrArg change hcontext, hchange _ hfixed, hlog, hhost⟩

/-- A session answers as its ledger does: what its log has counted takes no part in an answer. -/
theorem answersAlike (log : MissLog) (host : Host) :
    (Simulation.ofStates (Accounts log host)).AnswersAlike where
  resolve scope name session ledger haccounts := by
    have hfixed : session.context.IsFixed := haccounts.context ▸ haccounts.isFixed
    have hrun : (Environment.resolve scope name : StateM Session _).run session =
        (session.context.value? (scope, name), session) :=
      Session.run_resolve_of_isFixed hfixed scope name
    rw [hrun, haccounts.context]
    exact ⟨rfl, haccounts⟩
  assign scope name value := relates_change fun _ hfixed => hfixed.assign scope name value
  drawSample session ledger haccounts := by
    have hrandom : session.context.random = ledger.context.random := by rw [haccounts.context]
    refine Random.nextUnit_related hrandom
      (fun drawn => { session with context := { session.context with random := drawn.2 } })
      (fun drawn => { ledger with context := { ledger.context with random := drawn.2 } })
      fun drawn => ?_
    exact ⟨congrArg (fun context : Context => { context with random := drawn.2 })
      haccounts.context, haccounts.isFixed, haccounts.log, haccounts.host⟩
  reportMiss scope name session ledger haccounts := by
    refine ⟨rfl, haccounts.context, haccounts.isFixed, ?_, haccounts.host⟩
    have hlog : (session.log.record (scope, name)).2 =
        log.recordAll (ledger.missed ++ [(scope, name)]) := by
      rw [haccounts.log, MissLog.recordAll_concat]
    exact hlog
  reportOverflow session ledger haccounts := ⟨rfl, haccounts⟩
  prepare := relates_change fun _ hfixed => hfixed

end Ledger

namespace Operation

/-- The outcome of an operation on a context without sources of the host, and the ledger it leaves.
Neither a log nor the host is asked. -/
def alone (operation : Operation) (context : Context) : Outcome × Ledger :=
  (operation.perform Ledger.modifyContext).run ⟨context, []⟩

theorem accounts_perform (operation : Operation) {context : Context} (hfixed : context.IsFixed)
    (log : MissLog) (host : Host) :
    ((operation.perform Session.modifyContext).run ⟨context, log, host⟩).1 =
        (operation.alone context).1 ∧
      Ledger.Accounts log host
        ((operation.perform Session.modifyContext).run ⟨context, log, host⟩).2
        (operation.alone context).2 :=
  operation.relates_perform (Ledger.answersAlike log host) (fun _ => Ledger.relates_change) _ _
    ⟨rfl, hfixed, rfl, rfl⟩

theorem isFixed_alone (operation : Operation) {context : Context} (hfixed : context.IsFixed) :
    (operation.alone context).2.context.IsFixed :=
  (operation.accounts_perform hfixed (MissLog.ofWindow 0) []).2.isFixed

/-- In a session an operation does to the context what it does to the context alone, and the log
counts the names on the ledger. -/
theorem run_perform (operation : Operation) {context : Context} (hfixed : context.IsFixed)
    (log : MissLog) (host : Host) :
    (operation.perform Session.modifyContext).run ⟨context, log, host⟩ =
      ((operation.alone context).1,
        ⟨(operation.alone context).2.context,
          log.recordAll (operation.alone context).2.missed, host⟩) := by
  obtain ⟨houtcome, hcontext, _, hlog, hhost⟩ := operation.accounts_perform hfixed log host
  generalize (operation.perform Session.modifyContext).run ⟨context, log, host⟩ = outcome at *
  obtain ⟨value, lastContext, lastLog, lastHost⟩ := outcome
  dsimp only at houtcome hcontext hlog hhost
  rw [houtcome, hcontext, hlog, hhost]

/-- The outcomes of operations that are done to a context one after the other, and the ledger that
they leave. -/
def conduct (context : Context) : List Operation → List Outcome × Ledger
  | [] => ([], ⟨context, []⟩)
  | operation :: operations =>
    let (outcome, ledger) := operation.alone context
    let (outcomes, rest) := conduct ledger.context operations
    (outcome :: outcomes, ⟨rest.context, ledger.missed ++ rest.missed⟩)

theorem length_conduct (context : Context) (operations : List Operation) :
    (conduct context operations).1.length = operations.length := by
  induction operations generalizing context with
  | nil => rfl
  | cons operation operations ih => exact congrArg Nat.succ (ih _)

end Operation

end MotionScript
