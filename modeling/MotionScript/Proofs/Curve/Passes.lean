import MotionScript.Proofs.Environment.Keeping
import MotionScript.Proofs.Expr.ReadFootprint
import MotionScript.Proofs.Expr.WriteFootprint
/-!
# Curves in a session

Every expression of a curve runs on its own and starts without temps.  The value of a curve
therefore depends only on what it reads from the other scopes, and a curve whose expressions neither
assign nor draw leaves all of its context but the temps as it was.
-/

namespace MotionScript

open MotionScript.Expr (Name)

/-! ### Contexts without temps -/

namespace Context

theorem value?_withoutTemps (context : Context) (name : Name) :
    context.withoutTemps.value? name = if name.1 = .temp then none else context.value? name := by
  obtain ⟨scope, name⟩ := name
  cases scope <;> rfl

theorem isFixed_withoutTemps (context : Context) :
    context.withoutTemps.IsFixed ↔ context.IsFixed := Iff.rfl

theorem withoutTemps_assign (context : Context) (scope : Scope) (name : String) (value : Float32) :
    (context.assign scope name value).withoutTemps =
      if scope = .temp then context.withoutTemps
      else context.withoutTemps.assign scope name value := by
  cases scope <;> rfl

theorem variableValues_eq_of_withoutTemps {left right : Context}
    (hsame : left.withoutTemps = right.withoutTemps) :
    left.variableValues = right.variableValues := by
  have hvariables := congrArg Context.variableValues hsame
  exact hvariables

theorem AgreeOn.withoutTemps {names : List Name} {left right : Context}
    (hagree : AgreeOn names left right) : AgreeOn names left.withoutTemps right.withoutTemps where
  random := hagree.random
  value name hname := by
    rw [value?_withoutTemps, value?_withoutTemps, hagree.value name hname]

end Context

namespace Session

/-- A session before an expression runs on its own. -/
def prepared (session : Session) : Session :=
  { session with context := session.context.withoutTemps }

/-- An expression runs on its own as it runs without temps. -/
theorem run_result (e : Expr) (session : Session) :
    (e.result : StateM Session Float32).run session =
      let evaluated := (e.evaluate : StateM Session Float32).run session.prepared
      ((if evaluated.1.isFinite then some evaluated.1 else none).getD 0, evaluated.2) := rfl

/-- Two sessions without sources of the host that agree on some names, temps aside. -/
structure AgreesBeforePass (names : List Name) (left right : Session) : Prop where
  leftFixed : left.context.IsFixed
  rightFixed : right.context.IsFixed
  agree : left.context.withoutTemps.AgreeOn names right.context.withoutTemps

namespace AgreesBeforePass

variable {names : List Name} {left between right : Session}

/-- Sessions that differ in their temps only agree on all names, since a pass drops the temps. -/
theorem of_withoutTemps_eq (names : List Name) (hfixed : left.context.IsFixed)
    (hsame : right.context.withoutTemps = left.context.withoutTemps) :
    AgreesBeforePass names left right where
  leftFixed := hfixed
  rightFixed := by
    rw [← Context.isFixed_withoutTemps, hsame]
    exact hfixed
  agree := ⟨congrArg Context.random hsame.symm, fun name _ => by rw [hsame]⟩

theorem trans (hfirst : AgreesBeforePass names left between)
    (hsecond : AgreesBeforePass names between right) : AgreesBeforePass names left right where
  leftFixed := hfirst.leftFixed
  rightFixed := hsecond.rightFixed
  agree := ⟨hfirst.agree.random.trans hsecond.agree.random, fun name hname =>
    (hfirst.agree.value name hname).trans (hsecond.agree.value name hname)⟩

/-- An expression has the same value in two sessions that agree on what it reads. -/
theorem run_evaluate {e : Expr} (hreads : ∀ name ∈ e.reads, name ∈ names)
    (hagrees : AgreesBeforePass names left right) :
    ((e.evaluate : StateM Session Float32).run left.prepared).1 =
        ((e.evaluate : StateM Session Float32).run right.prepared).1 ∧
      AgreesBeforePass names ((e.evaluate : StateM Session Float32).run left.prepared).2
        ((e.evaluate : StateM Session Float32).run right.prepared).2 := by
  have halike : Alike names ⟨[], left.prepared⟩ ⟨[], right.prepared⟩ :=
    ⟨rfl, hagrees.leftFixed, hagrees.rightFixed, hagrees.agree⟩
  obtain ⟨hvalue, hend⟩ := halike.runFrom_evaluate hreads
  rw [run_evaluate_eq, run_evaluate_eq]
  exact ⟨hvalue, hend.leftFixed, hend.rightFixed, hend.agree.withoutTemps⟩

theorem relates_result {e : Expr} (hreads : ∀ name ∈ e.reads, name ∈ names) :
    (Simulation.ofStates (AgreesBeforePass names)).Relates e.result e.result := by
  intro left right hagrees
  obtain ⟨hvalue, hend⟩ := hagrees.run_evaluate hreads
  rw [run_result, run_result]
  dsimp only
  rw [hvalue]
  exact ⟨rfl, hend⟩

/-- A curve has the same value in two sessions that agree on what it reads, temps aside. -/
theorem run_curve {curve : Curve Expr Float32} (hreads : curve.reads ⊆ names)
    (hagrees : AgreesBeforePass names left right) :
    ((curve.evaluate : StateM Session Float32).run left).1 =
      ((curve.evaluate : StateM Session Float32).run right).1 := by
  have hcurve : (Simulation.ofStates (AgreesBeforePass names)).Relates
      curve.evaluate curve.evaluate := by
    apply Simulation.relates_evaluateWith
    intro e he
    exact relates_result fun name hname => hreads (List.mem_flatMap.2 ⟨e, he, hname⟩)
  exact (hcurve left right hagrees).1

end AgreesBeforePass

end Session

/-! ### Curves that change nothing -/

/-- An expression neither assigns nor draws. -/
structure Expr.IsPlain (e : Expr) : Prop where
  writes : e.writes = []
  isRandom : e.isRandom = false

/-- None of the expressions that a curve can ask for assigns or draws. -/
def Curve.IsPlain {α : Type} (curve : Curve Expr α) : Prop :=
  ∀ e ∈ curve.expressions, e.IsPlain

instance (e : Expr) : Decidable e.IsPlain :=
  decidable_of_iff (e.writes = [] ∧ e.isRandom = false)
    ⟨fun ⟨hwrites, hrandom⟩ => ⟨hwrites, hrandom⟩, fun ⟨hwrites, hrandom⟩ => ⟨hwrites, hrandom⟩⟩

instance {α : Type} (curve : Curve Expr α) : Decidable curve.IsPlain :=
  inferInstanceAs (Decidable (∀ e ∈ curve.expressions, e.IsPlain))

namespace Expr.IsPlain

variable {e : Expr} (hplain : e.IsPlain)
include hplain

/-- A plain expression neither assigns nor draws, so it leaves the context as it is. -/
theorem context_run_evaluate (session : Session) :
    ((e.evaluate : StateM Session Float32).run session).2.context = session.context := by
  apply e.evaluate_keeps fun before after : Session => after.context = before.context
  case hrefl => exact fun _ => rfl
  case htrans => exact fun hfirst hsecond => hsecond.trans hfirst
  case hsample =>
    exact fun hrandom => absurd hrandom (Bool.eq_false_iff.1 hplain.isRandom)
  case hmiss => exact fun _ _ _ => rfl
  case hoverflow => exact fun _ => rfl
  case hreads =>
    exact fun name _ session => Session.context_run_resolve name.1 name.2 session
  case hwrites =>
    intro name hname
    rw [hplain.writes] at hname
    exact absurd hname List.not_mem_nil

/-- The result of a plain expression changes nothing in the context but the temps. -/
theorem withoutTemps_run_result (session : Session) :
    ((e.result : StateM Session Float32).run session).2.context.withoutTemps =
      session.context.withoutTemps := by
  rw [Session.run_result]
  dsimp only
  rw [hplain.context_run_evaluate session.prepared]
  rfl

end Expr.IsPlain

/-- A curve of plain expressions leaves everything but the temps. -/
theorem Curve.IsPlain.withoutTemps_run_evaluate {curve : Curve Expr Float32}
    (hplain : curve.IsPlain) (session : Session) :
    ((curve.evaluate : StateM Session Float32).run session).2.context.withoutTemps =
      session.context.withoutTemps := by
  have hcurve : (Simulation.keeping
      (fun before after : Session => after.context.withoutTemps = before.context.withoutTemps)
      (fun _ => rfl) (fun hfirst hsecond => hsecond.trans hfirst)).Relates
        curve.evaluate curve.evaluate := by
    apply Simulation.relates_evaluateWith
    exact fun e he => ⟨rfl, (hplain e he).withoutTemps_run_result⟩
  exact hcurve.2 session

end MotionScript
