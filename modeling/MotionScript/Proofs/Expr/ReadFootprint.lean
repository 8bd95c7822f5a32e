import MotionScript.Proofs.Context.View
import MotionScript.Proofs.Environment.Answers
/-!
# What an expression reads

The names that `reads` lists are all that an expression learns from its context.  In two contexts
without sources of the host that agree on these names and have the same random numbers, an
expression makes the same requests and gets the same answers.  Reads that a logical operator or a
condition skips are listed too, and a name that the expression has written before is read with the
value that both contexts were given.
-/

namespace MotionScript

open MotionScript.Expr (Name)

/-- Two contexts have the same random numbers and the same values under some names. -/
structure Context.AgreeOn (names : List Name) (left right : Context) : Prop where
  random : left.random = right.random
  value : ∀ name ∈ names, left.value? name = right.value? name

namespace Context.AgreeOn

variable {names : List Name} {left right : Context}

theorem assign (hagree : AgreeOn names left right) (scope : Scope) (name : String)
    (value : Float32) :
    AgreeOn names (left.assign scope name value) (right.assign scope name value) where
  random := by rw [random_assign, random_assign, hagree.random]
  value other hother := by
    rw [value?_assign, value?_assign, hagree.value other hother]

/-- The same random numbers on both sides, whatever they are. -/
theorem withRandom (hagree : AgreeOn names left right) (random : Random) :
    AgreeOn names { left with random } { right with random } where
  random := rfl
  value name hname :=
    calc
      ({ left with random } : Context).value? name = left.value? name :=
        value?_withRandom left random name
      _ = right.value? name := hagree.value name hname
      _ = ({ right with random } : Context).value? name :=
        (value?_withRandom right random name).symm

end Context.AgreeOn

/-! ### The two runs -/

/-- Two trails with the same requests so far, in contexts without sources of the host that agree on
some names. -/
structure Alike (names : List Name) (left right : Trail Session) : Prop where
  transcript : left.transcript = right.transcript
  leftFixed : left.state.context.IsFixed
  rightFixed : right.state.context.IsFixed
  agree : left.state.context.AgreeOn names right.state.context

namespace Alike

open Simulation

variable {names : List Name}

/-- A name of the footprint is answered alike on both sides. -/
theorem relates_resolve {name : Name} (hname : name ∈ names) :
    (ofTrails (Alike names)).Relates (Environment.resolve name.1 name.2)
      (Environment.resolve name.1 name.2) := by
  intro left right halike
  obtain ⟨htranscript, hleft, hright, hagree⟩ := halike
  rw [Session.runFrom_resolve_of_isFixed left name.1 name.2 hleft,
    Session.runFrom_resolve_of_isFixed right name.1 name.2 hright]
  exact ⟨hagree.value name hname, by rw [htranscript], hleft, hright, hagree⟩

theorem relates_assign (scope : Scope) (name : String) (value : Float32) :
    (ofTrails (Alike names)).Relates (Environment.assign scope name value)
      (Environment.assign scope name value) := by
  intro left right halike
  obtain ⟨htranscript, hleft, hright, hagree⟩ := halike
  rw [Session.runFrom_assign, Session.runFrom_assign]
  exact ⟨rfl, by rw [htranscript], hleft.assign scope name value, hright.assign scope name value,
    hagree.assign scope name value⟩

theorem relates_drawSample :
    (ofTrails (Alike names)).Relates Environment.drawSample Environment.drawSample := by
  intro left right halike
  obtain ⟨htranscript, hleft, hright, hagree⟩ := halike
  rw [Session.runFrom_drawSample, Session.runFrom_drawSample]
  refine Random.nextUnit_related hagree.random left.afterDraw right.afterDraw fun drawn => ?_
  exact ⟨congrArg (· ++ [Request.draw drawn.1]) htranscript, hleft, hright,
    hagree.withRandom drawn.2⟩

theorem relates_reportMiss (scope : Scope) (name : String) :
    (ofTrails (Alike names)).Relates (Environment.reportMiss scope name)
      (Environment.reportMiss scope name) := by
  intro left right halike
  obtain ⟨htranscript, hleft, hright, hagree⟩ := halike
  rw [Session.runFrom_reportMiss, Session.runFrom_reportMiss]
  exact ⟨rfl, by rw [htranscript], hleft, hright, hagree⟩

theorem relates_reportOverflow :
    (ofTrails (Alike names)).Relates Environment.reportOverflow Environment.reportOverflow := by
  intro left right halike
  obtain ⟨htranscript, hleft, hright, hagree⟩ := halike
  exact ⟨rfl, congrArg (· ++ [Request.overflow]) htranscript, hleft, hright, hagree⟩

/-- An expression that reads none but the names keeps two trails alike. -/
theorem runFrom_evaluate {e : Expr} (hreads : ∀ name ∈ e.reads, name ∈ names)
    {left right : Trail Session} (halike : Alike names left right) :
    (Transcribed.runFrom left e.evaluate).1 = (Transcribed.runFrom right e.evaluate).1 ∧
      Alike names (Transcribed.runFrom left e.evaluate).2
        (Transcribed.runFrom right e.evaluate).2 :=
  relates_evaluate_same (fun _ => relates_drawSample) relates_reportMiss relates_reportOverflow
    (fun name hname => relates_resolve (hreads name hname))
    (fun name _ => relates_assign name.1 name.2) left right halike

end Alike

/-- An evaluation with a transcript has the value of the evaluation without one and leaves the same
session. -/
theorem Session.run_evaluate_eq (e : Expr) (session : Session) :
    (e.evaluate : StateM Session Float32).run session =
      ((Transcribed.runFrom ⟨[], session⟩ e.evaluate).1,
        (Transcribed.runFrom ⟨[], session⟩ e.evaluate).2.state) := by
  rw [← Transcribed.map_fst_run_evaluate (StateM Session) e []]
  rfl

/-- In two contexts without sources of the host that agree on the names that an expression reads,
and whatever their logs are, the expression has the same value and makes the same requests: it reads
and assigns the same names with the same values, draws the same samples and misses the same names,
all in the same order.  The contexts that it leaves agree on these names again. -/
theorem evaluate_of_agreeOn_reads (e : Expr) (left right : Session)
    (hleft : left.context.IsFixed) (hright : right.context.IsFixed)
    (hagree : left.context.AgreeOn e.reads right.context) :
    let leftRun := (e.evaluate : StateM Session Float32).run left
    let rightRun := (e.evaluate : StateM Session Float32).run right
    leftRun.1 = rightRun.1 ∧
      (Transcribed.runFrom ⟨[], left⟩ e.evaluate).2.transcript =
        (Transcribed.runFrom ⟨[], right⟩ e.evaluate).2.transcript ∧
      leftRun.2.context.AgreeOn e.reads rightRun.2.context := by
  have halike : Alike e.reads ⟨[], left⟩ ⟨[], right⟩ := ⟨rfl, hleft, hright, hagree⟩
  obtain ⟨hvalue, hend⟩ := halike.runFrom_evaluate fun _ hname => hname
  intro leftRun rightRun
  simp only [leftRun, rightRun, Session.run_evaluate_eq]
  exact ⟨hvalue, hend.transcript, hend.agree⟩

/-- The contexts differ in a variable that is only written and in one that does not occur.  The die
behind the conjunction is not rolled, and the branch that is taken misses its name. -/
theorem evaluate_of_agreeOn_reads_skipped :
    let e : Expr := .sequence [
      .assign .add .variable "sum" (.binary .and (.reference .query "age")
        (.call .random [.constant 0, .reference .temp "limit"])),
      .assign .set .variable "last" (.reference .variable "sum"),
      .conditional (.reference .query "age") (.constant 1) (.reference .context "scale")]
    let base := (Context.ofSeed 7).withQuery "age" (.fixed 0)
    let left : Session := ⟨base.withVariable "last" 3, MissLog.ofWindow 0, []⟩
    let right : Session := ⟨base.withVariable "other" 4, MissLog.ofWindow 9, []⟩
    (left.context.IsFixed ∧ right.context.IsFixed ∧ left.context.AgreeOn e.reads right.context) ∧
      ((e.evaluate : StateM Session Float32).run left).1 =
        ((e.evaluate : StateM Session Float32).run right).1 ∧
      (Transcribed.runFrom ⟨[], left⟩ e.evaluate).2.transcript =
        (Transcribed.runFrom ⟨[], right⟩ e.evaluate).2.transcript ∧
      ((e.evaluate : StateM Session Float32).run left).2.context.AgreeOn e.reads
        ((e.evaluate : StateM Session Float32).run right).2.context := by
  intro e base left right
  have hbase : base.IsFixed := (Context.isFixed_ofSeed 7).withQuery "age" 0
  have hreads : e.reads = [(.variable, "sum"), (.query, "age"), (.temp, "limit"),
      (.variable, "sum"), (.query, "age"), (.context, "scale")] := rfl
  have hagree : left.context.AgreeOn e.reads right.context := by
    refine ⟨rfl, ?_⟩
    simp only [hreads, List.forall_mem_cons, List.not_mem_nil, false_implies, implies_true,
      and_true]
    exact ⟨rfl, rfl, rfl, rfl, rfl, rfl⟩
  exact ⟨⟨hbase, hbase, hagree⟩, evaluate_of_agreeOn_reads e left right hbase hbase hagree⟩

end MotionScript
