import MotionScript.Proofs.Environment.Answers
/-!
# What evaluation keeps

A relation between the state before and the state after a program is kept by a whole evaluation if
single requests keep it.  Only the requests that an expression can make have to be looked at: names
that it reads, names that it writes, and samples if it may draw any.
-/

namespace MotionScript

variable {σ : Type}

namespace Simulation

/-- A program beside itself, if it keeps a relation between the states before and after it. -/
def keeping (kept : σ → σ → Prop) (hrefl : ∀ state, kept state state)
    (htrans : ∀ {first second third}, kept first second → kept second third → kept first third) :
    Simulation (StateM σ) (StateM σ) where
  Relates left right := left = right ∧ ∀ state, kept state (left.run state).2
  pure _ := ⟨rfl, hrefl⟩
  bind := by
    rintro α β program _ next next' ⟨rfl, hprogram⟩ hnext
    have hsame : next = next' := funext fun value => (hnext value).1
    refine ⟨by rw [hsame], fun state => ?_⟩
    rw [run_bind_eq]
    exact htrans (hprogram state) ((hnext _).2 _)

end Simulation

/-- An evaluation keeps what each request that the expression can make keeps. -/
theorem Expr.evaluate_keeps [Environment (StateM σ)] (e : Expr) (kept : σ → σ → Prop)
    (hrefl : ∀ state, kept state state)
    (htrans : ∀ {first second third}, kept first second → kept second third → kept first third)
    (hsample : e.isRandom = true →
      ∀ state, kept state ((Environment.drawSample : StateM σ Float32).run state).2)
    (hmiss : ∀ (scope : Scope) (name : String) (state : σ),
      kept state ((Environment.reportMiss scope name : StateM σ Unit).run state).2)
    (hoverflow : ∀ state, kept state ((Environment.reportOverflow : StateM σ Unit).run state).2)
    (hreads : ∀ name ∈ e.reads, ∀ state,
      kept state ((Environment.resolve name.1 name.2 : StateM σ (Option Float32)).run state).2)
    (hwrites : ∀ name ∈ e.writes, ∀ (value : Float32) (state : σ),
      kept state ((Environment.assign name.1 name.2 value : StateM σ Unit).run state).2)
    (state : σ) : kept state ((e.evaluate : StateM σ Float32).run state).2 := by
  have hevaluate : (Simulation.keeping kept hrefl htrans).Relates
      (e.evaluate : StateM σ Float32) e.evaluate :=
    Simulation.relates_evaluate_same (fun hrandom => ⟨rfl, hsample hrandom⟩)
      (fun scope name => ⟨rfl, hmiss scope name⟩) ⟨rfl, hoverflow⟩
      (fun name hname => ⟨rfl, hreads name hname⟩)
      (fun name hname value => ⟨rfl, hwrites name hname value⟩)
  exact hevaluate.2 state

end MotionScript
