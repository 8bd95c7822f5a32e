import MotionScript.Proofs.Expr.References
import MotionScript.Proofs.Family.Interleaving
import MotionScript.Proofs.MissLog.Calls
/-!
# Warnings of a family

Any number of contexts can report to one log, and the host can call it as well.  Whatever happens to
a family, the log comes to its state by these calls alone: by those of the host, and by those for
the names that the transcripts of its members' operations report.
-/

namespace MotionScript

open MotionScript.Expr (Name)
open MissLog (Call Reached Totals NeverElapses)

namespace Transcribed

variable {σ α β : Type}

/-- Wherever it goes on from, a program reports none but these names as missing. -/
def MissesOnly (names : List Name) (program : Transcribed (StateM σ) α) : Prop :=
  Reports (· ⊆ names) program

namespace MissesOnly

variable {names : List Name}

theorem of_misses {program : Transcribed (StateM σ) α} {reported : List Name}
    (hmisses : Misses program reported) (hsubset : reported ⊆ names) : MissesOnly names program :=
  Reports.mono hmisses fun _ hsublist => List.Subset.trans hsublist.subset hsubset

theorem bind {program : Transcribed (StateM σ) α} {next : α → Transcribed (StateM σ) β}
    (hfirst : MissesOnly names program) (hnext : ∀ value, MissesOnly names (next value)) :
    MissesOnly names (program >>= next) :=
  Reports.bind hfirst hnext fun _ _ hreported hlater => List.append_subset.2 ⟨hreported, hlater⟩

theorem pure (names : List Name) (value : α) :
    MissesOnly names (pure value : Transcribed (StateM σ) α) :=
  of_misses (.pure value) (List.nil_subset names)

/-- Beside itself, a program that reports none but some names. -/
def among (names : List Name) :
    Simulation (Transcribed (StateM σ)) (Transcribed (StateM σ)) where
  Relates left right := left = right ∧ MissesOnly names left
  pure value := ⟨rfl, pure names value⟩
  bind := by
    rintro α β left _ leftNext rightNext ⟨rfl, hleft⟩ hnext
    have hsame : leftNext = rightNext := funext fun value => (hnext value).1
    exact ⟨by rw [hsame], hleft.bind fun value => (hnext value).2⟩

variable [Environment (StateM σ)]

theorem curve (curve : Curve Expr Float32)
    (hreferences : curve.expressions.flatMap Expr.references ⊆ names) :
    MissesOnly names (curve.evaluate : Transcribed (StateM σ) Float32) := by
  have hcurve : (among names).Relates (curve.evaluate : Transcribed (StateM σ) Float32)
      curve.evaluate := by
    apply Simulation.relates_evaluateWith
    intro e he
    refine ⟨rfl, of_misses (.result e) fun name hname => hreferences ?_⟩
    exact List.mem_flatMap.2 ⟨e, he, hname⟩
  exact hcurve.2

/-- Publishing reports no names but those that its curves refer to. -/
theorem publish (entries : List (String × Curve Expr Float32))
    (hreferences : ∀ entry ∈ entries, entry.2.expressions.flatMap Expr.references ⊆ names) :
    MissesOnly names (CurveTable.publish entries : Transcribed (StateM σ) Unit) := by
  induction entries with
  | nil => exact pure names ()
  | cons entry entries ih =>
      rw [List.forall_mem_cons] at hreferences
      apply (curve entry.2 hreferences.1).bind
      intro value
      exact (of_misses (.assign .variable entry.1 value) (List.nil_subset names)).bind
        fun _ => ih hreferences.2

end MissesOnly

end Transcribed

namespace Operation

/-- The expressions that an operation can evaluate. -/
def expressions : Operation → List Expr
  | .evaluate e | .result e | .result? e => [e]
  | .evaluateCurve curve => curve.expressions
  | .updateCurves set => set.entries.flatMap fun entry => entry.2.expressions
  | .setVariable _ _ | .setQuery _ _ | .setContext _ _ | .assign _ _ _ | .clearVariables
  | .prepare => []

/-- The names of the references that an operation can evaluate. -/
def references (operation : Operation) : List Name :=
  operation.expressions.flatMap Expr.references

open Transcribed (Misses MissesOnly)

/-- An operation reports no names but those that it refers to. -/
theorem missesOnly_references (operation : Operation) :
    MissesOnly operation.references operation.transcribed := by
  have hquiet {program : Transcribed (StateM Session) Unit} (hprogram : Misses program []) :
      MissesOnly [] (do program; return Outcome.done) :=
    .of_misses (hprogram.bind fun _ => .pure Outcome.done) (List.nil_subset [])
  have hvalue {α : Type} {program : Transcribed (StateM Session) α} {e : Expr}
      (hprogram : Misses program e.references) (outcome : α → Outcome) :
      MissesOnly ([e].flatMap Expr.references) (do return outcome (← program)) := by
    refine .of_misses ((Transcribed.missing Session).andThen hprogram fun value =>
      .pure (outcome value)) ?_
    rw [List.flatMap_singleton]
    exact List.Subset.refl _
  cases operation with
  | setVariable name value => exact hquiet (.lift _)
  | setQuery name value => exact hquiet (.lift _)
  | setContext name value => exact hquiet (.lift _)
  | assign scope name value => exact hquiet (.assign scope name value)
  | clearVariables => exact hquiet (.lift _)
  | prepare => exact hquiet .prepare
  | evaluate e => exact hvalue (.evaluate e) .value
  | result e => exact hvalue (.result e) .value
  | result? e => exact hvalue (.result? e) .value?
  | evaluateCurve curve =>
      exact (MissesOnly.curve curve (List.Subset.refl _)).bind fun value => .pure _ _
  | updateCurves set =>
      refine (MissesOnly.publish set.entries fun entry hentry => ?_).bind fun _ => .pure _ _
      intro name hname
      obtain ⟨e, he, hname⟩ := List.mem_flatMap.1 hname
      exact List.mem_flatMap.2 ⟨e, List.mem_flatMap.2 ⟨entry, hentry, he⟩, hname⟩

theorem missed_transcript_subset (operation : Operation) (session : Session) :
    missed (operation.transcript session) ⊆ operation.references := by
  obtain ⟨reported, hreported, hmissed⟩ := operation.missesOnly_references ⟨[], session⟩
  have hall : missed (operation.transcript session) = reported := hmissed
  rw [hall]
  exact hreported

end Operation

/-! ### What happens to a family -/

namespace Family

/-- Something that happens to a family. -/
inductive Step where
  /-- Time passes. -/
  | wait (milliseconds : Nat)
  /-- The host calls a log itself. -/
  | record (log : Nat) (name : Name)
  | operate (member : Nat) (operation : Operation)
  /-- The host changes the context of a member. -/
  | change (member : Nat) (edit : Context → Context)
  | clone (member : Nat)
  | join (member : Nat) (context : Context)
  | renewLog (member : Nat) (log : MissLog)

/-- The session of a member, if the member reports to a log. -/
def reporting? (family : Family) (log member : Nat) : Option Session :=
  if family.members[member]?.map Member.log = some log then family.session? member else none

namespace Step

def after : Step → Family → Family
  | .wait milliseconds, family => family.wait milliseconds
  | .record log name, family =>
    { family with logs := family.logs.modify log fun log => (log.record name).2 }
  | .operate member operation, family =>
    ((act member (operation.perform Session.modifyContext)).run family).2
  | .change member edit, family => ((act member (Session.modifyContext edit)).run family).2
  | .clone member, family => ((Family.clone member).run family).2
  | .join member context, family => ((Family.join member context).run family).2
  | .renewLog member log, family => ((Family.renewLog member log).run family).2

def delay : Step → Nat
  | .wait milliseconds => milliseconds
  | _ => 0

/-- The names that a log is called for in a step. -/
def names (log : Nat) (family : Family) : Step → List Name
  | .record called name => if called = log then [name] else []
  | .operate member operation =>
    match family.reporting? log member with
    | some session => missed (operation.transcript session)
    | none => []
  | _ => []

/-- The names that any log can be called for in a step. -/
def mentions : Step → List Name
  | .record _ name => [name]
  | .operate _ operation => operation.references
  | _ => []

end Step

def after (family : Family) (steps : List Step) : Family :=
  steps.foldl (fun family step => step.after family) family

/-- The calls of a log in some steps. -/
def calls (log : Nat) (family : Family) : List Step → List Call
  | [] => []
  | step :: steps =>
    (match family.logs[log]? with
      | some found => (found.wait step.delay).callsFor (step.names log family)
      | none => []) ++ calls log (step.after family) steps

variable {family : Family} {index : Nat} {log : MissLog} {window : Nat}

/-! ### One step -/

/-- The member that reports to a log has that log in its session. -/
theorem log_of_reporting? {member : Nat} {session : Session}
    (hreporting : family.reporting? index member = some session)
    (hlog : family.logs[index]? = some log) : session.log = log := by
  rw [reporting?] at hreporting
  split at hreporting
  next hmember =>
    obtain ⟨found, hfound, rfl⟩ := Option.map_eq_some_iff.1 hmember
    simp only [session?, hfound, hlog, Option.bind_eq_bind, Option.bind_some, Option.pure_def,
      Option.some.injEq] at hreporting
    rw [← hreporting]
  next => cases hreporting

/-- What a member does leaves all logs but the one that it reports to. -/
theorem logs_run_act {β : Type} (hlog : family.logs[index]? = some log) (member : Nat)
    (action : StateM Session β) :
    ((act member action).run family).2.logs[index]? =
      some (match family.reporting? index member with
        | some session => (action.run session).2.log
        | none => log) := by
  cases hsession : family.session? member with
  | none =>
      have hact : ((act member action).run family).2 = family := by
        simp only [act, StateT.run_bind, StateT.run_get, pure_bind, hsession]
        rfl
      have hreporting : family.reporting? index member = none := by
        rw [reporting?, hsession, ite_self]
      rw [hact, hlog, hreporting]
  | some session =>
      cases hmember : family.members[member]? with
      | none => simp [session?, hmember] at hsession
      | some found =>
          obtain ⟨hindex, -⟩ := List.getElem?_eq_some_iff.1 hlog
          rw [run_act_of_some hsession, putSession, hmember]
          by_cases hreports : found.log = index
          · simp [reporting?, hmember, hsession, hreports, hindex]
          · simp [reporting?, hmember, hreports, hlog]

/-- A member that keeps its log keeps every log of the family. -/
theorem logs_run_act_of_log_eq {β : Type} (hlog : family.logs[index]? = some log) (member : Nat)
    {action : StateM Session β} (hkeeps : ∀ session, (action.run session).2.log = session.log) :
    ((act member action).run family).2.logs[index]? = some log := by
  rw [logs_run_act hlog]
  split
  next session hreporting => rw [hkeeps, log_of_reporting? hreporting hlog]
  next => rfl

theorem logs_run_join (hlog : family.logs[index]? = some log) (member : Nat) (context : Context) :
    ((join member context).run family).2.logs[index]? = some log := by
  simp only [join, StateT.run_bind, StateT.run_get, pure_bind]
  split <;> exact hlog

theorem logs_run_clone (hlog : family.logs[index]? = some log) (member : Nat) :
    ((clone member).run family).2.logs[index]? = some log := by
  simp only [clone, StateT.run_bind, StateT.run_get, pure_bind]
  split
  · exact logs_run_join hlog member _
  · exact hlog

theorem logs_run_renewLog (hlog : family.logs[index]? = some log) (member : Nat)
    (other : MissLog) : ((renewLog member other).run family).2.logs[index]? = some log := by
  obtain ⟨hindex, -⟩ := List.getElem?_eq_some_iff.1 hlog
  simp only [renewLog, StateT.run_modify]
  cases family.members[member]? with
  | none => exact hlog
  | some found => exact (List.getElem?_append_left hindex).trans hlog

/-- In a step, a log lets the time pass and counts the names that it is called for. -/
theorem logs_after_step (hlog : family.logs[index]? = some log) (step : Step) :
    (step.after family).logs[index]? =
      some ((log.wait step.delay).recordAll (step.names index family)) := by
  cases step with
  | wait milliseconds => simp [Step.after, wait, hlog, Step.delay, Step.names, MissLog.recordAll]
  | record called name =>
      simp only [Step.after, List.getElem?_modify, hlog, Step.names]
      split
      next hcalled => rfl
      next hcalled => rfl
  | operate member operation =>
      rw [Step.after, logs_run_act hlog]
      simp only [Step.names]
      cases hreporting : family.reporting? index member with
      | none => rfl
      | some session =>
          simp only [operation.log_run_perform, log_of_reporting? hreporting hlog]
          rfl
  | change member edit => exact logs_run_act_of_log_eq hlog member fun _ => rfl
  | clone member => exact logs_run_clone hlog member
  | join member context => exact logs_run_join hlog member context
  | renewLog member other => exact logs_run_renewLog hlog member other

/-- A step reports no names but those that it mentions. -/
theorem names_subset_mentions (index : Nat) (family : Family) (step : Step) :
    step.names index family ⊆ step.mentions := by
  cases step with
  | record called name =>
      simp only [Step.names, Step.mentions]
      split
      · exact List.Subset.refl _
      · exact List.nil_subset _
  | operate member operation =>
      simp only [Step.names, Step.mentions]
      split
      next session hreporting => exact operation.missed_transcript_subset session
      next => exact List.nil_subset _
  | _ => exact List.nil_subset _

/-! ### Many steps -/

/-- Whatever happens, a log is only called. -/
theorem reached_after (steps : List Step) {past : List Call} (hlog : family.logs[index]? = some log)
    (hpast : Reached window past log) :
    ∃ later, (family.after steps).logs[index]? = some later ∧
      Reached window (past ++ calls index family steps) later := by
  induction steps generalizing family past log with
  | nil =>
      rw [calls, List.append_nil]
      exact ⟨log, hlog, hpast⟩
  | cons step steps ih =>
      rw [calls, hlog, ← List.append_assoc]
      exact ih (logs_after_step hlog step)
        ((hpast.wait step.delay).recordAll (step.names index family))

theorem name_of_mem_callsFor {names : List Name} {call : Call}
    (hcall : call ∈ log.callsFor names) : call.name ∈ names := by
  induction names generalizing log with
  | nil => cases hcall
  | cons name names ih =>
      rcases List.mem_cons.1 hcall with rfl | hcall
      · exact List.mem_cons_self
      · exact List.mem_cons_of_mem name (ih hcall)

/-- All calls to the log are for names that some step mentions. -/
theorem name_of_mem_calls {steps : List Step} {names : List Name}
    (hmentions : ∀ step ∈ steps, step.mentions ⊆ names) {call : Call}
    (hcall : call ∈ calls index family steps) : call.name ∈ names := by
  induction steps generalizing family with
  | nil => cases hcall
  | cons step steps ih =>
      rw [List.forall_mem_cons] at hmentions
      rw [calls, List.mem_append] at hcall
      rcases hcall with hcall | hcall
      · split at hcall
        · exact hmentions.1 (names_subset_mentions index family step (name_of_mem_callsFor hcall))
        · cases hcall
      · exact ih hmentions.2 hcall

/-- However a log is called, by the host or by what the members of a family do, it counts each call.
If the window never elapses, warnings are given for the first call of each name; without a window a
warning is given for every call.  What an evaluation calls its log for is some of the references of
the expression, so that in a window that never elapses any number of evaluations of one expression
give no more warnings than the expression refers to names. -/
theorem totals_of_calls :
    (∀ (window : Nat) (calls : List Call) (log : MissLog), Reached window calls log →
        Totals window calls log) ∧
      (∀ (e : Expr) (session : Session),
        (missed ((Operation.evaluate e).transcript session)).Sublist e.references) ∧
      ∀ (window : Nat) (family : Family) (index : Nat) (steps : List Step),
        family.logs[index]? = some (.ofWindow window) →
          ∃ log, (family.after steps).logs[index]? = some log ∧
            Totals window (calls index family steps) log ∧
            ∀ e : Expr, (∀ step ∈ steps, step.mentions ⊆ e.references) →
              NeverElapses window (calls index family steps) →
                log.warnings ≤ e.references.toFinset.card := by
  refine ⟨fun window calls log hlog => .of_reached hlog, fun e session => ?_,
    fun window family index steps hlog => ?_⟩
  · obtain ⟨reported, hreported, hmissed⟩ := Transcribed.Misses.evaluate e ⟨[], session⟩
    have hall : missed ((Operation.evaluate e).transcript session) = reported := hmissed
    rwa [hall]
  · obtain ⟨later, hlater, hreached⟩ := reached_after steps hlog .start
    have htotals := Totals.of_reached hreached
    refine ⟨later, hlater, htotals, fun e hmentions hnever => ?_⟩
    rw [htotals.warnings hnever]
    apply Finset.card_le_card
    intro name hname
    obtain ⟨call, hcall, rfl⟩ := List.mem_map.1 (List.mem_toFinset.1 hname)
    exact List.mem_toFinset.2 (name_of_mem_calls hmentions hcall)

/-- A member and its clone report to a log with a minute's window, and another member to one that
has none.  The target of the assignment has no value at first, which nobody reports. -/
theorem totals_of_calls_minute :
    let e : Expr := .binary .add (.reference .query "age")
      (.assign .add .variable "sum" (.reference .query "age"))
    let family : Family :=
      ⟨[⟨Context.ofSeed 1, 0⟩, ⟨Context.ofSeed 2, 1⟩], [.ofWindow 60000, .ofWindow 0], []⟩
    let steps : List Step := [.operate 0 (.evaluate e), .clone 0, .wait 5, .operate 2 (.result e),
      .operate 1 (.result? e)]
    (family.logs[0]? = some (.ofWindow 60000) ∧ family.logs[1]? = some (.ofWindow 0) ∧
        (∀ step ∈ steps, step.mentions ⊆ e.references) ∧
        NeverElapses 60000 (calls 0 family steps) ∧
        Reached 7 [(MissLog.ofWindow 7).call (.temp, "t")]
          ((MissLog.ofWindow 7).record (.temp, "t")).2) ∧
      (∃ log, (family.after steps).logs[0]? = some log ∧ log.misses = 4 ∧ log.warnings ≤ 1) ∧
      (∃ log, (family.after steps).logs[1]? = some log ∧ log.misses = 2 ∧ log.warnings = 2) ∧
      ((MissLog.ofWindow 7).record (.temp, "t")).2.misses = 1 := by
  intro e family steps
  have hmentions : ∀ step ∈ steps, step.mentions ⊆ e.references := by decide
  have hnever : NeverElapses 60000 (calls 0 family steps) := by decide +kernel
  have hreached : Reached 7 [(MissLog.ofWindow 7).call (.temp, "t")] _ := Reached.start.record _
  have hlengths : (calls 0 family steps).length = 4 ∧ (calls 1 family steps).length = 2 := by
    decide +kernel
  obtain ⟨hlogs, -, hfamilies⟩ := totals_of_calls
  obtain ⟨first, hfirst, hfirstTotals, hwarnings⟩ := hfamilies 60000 family 0 steps rfl
  obtain ⟨second, hsecond, hsecondTotals, -⟩ := hfamilies 0 family 1 steps rfl
  refine ⟨⟨rfl, rfl, hmentions, hnever, hreached⟩, ?_, ?_, (hlogs _ _ _ hreached).misses⟩
  · exact ⟨first, hfirst, hfirstTotals.misses.trans hlengths.1, hwarnings e hmentions hnever⟩
  · have hmisses := hsecondTotals.misses.trans hlengths.2
    exact ⟨second, hsecond, hmisses, (hsecondTotals.ofZero rfl).2.trans hmisses⟩

end Family

end MotionScript
