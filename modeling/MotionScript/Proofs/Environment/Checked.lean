import MotionScript.Proofs.Environment.Answers
/-!
# Checked evaluation

A checked evaluation ends at the first overflow.  Beside it runs the evaluation that takes no notice
of overflows and writes a transcript: if the transcript shows no overflow, the checked evaluation
has the same value and leaves the same state, and otherwise it ends in a fault.  So whatever holds
of evaluations whose integers wrap around holds of the checked ones that come to an end.
-/

namespace MotionScript

variable {σ : Type}

/-- How a checked program ends beside a program that goes on to a value and a state, with requests
that it has added to its transcript. -/
structure EndsBeside {α : Type} (ended : Except Fault α × σ) (value : α) (state : σ)
    (added : List Request) : Prop where
  ok : .overflow ∉ added → ended = (.ok value, state)
  error : .overflow ∈ added → ended.1 = .error .overflow

namespace Simulation

/-- Checked programs, each beside the program with a transcript that it follows up to the first
overflow. -/
def checking (σ : Type) : Simulation (Checked (StateM σ)) (Transcribed (StateM σ)) where
  Relates checked program := ∀ trail : Trail σ, ∃ added,
    (program.runFrom trail).2.transcript = trail.transcript ++ added ∧
      EndsBeside (checked.run.run trail.state) (program.runFrom trail).1
        (program.runFrom trail).2.state added
  pure _ trail := ⟨[], (List.append_nil _).symm, fun _ => rfl, nofun⟩
  bind {α β checked program checkedNext next} hfirst hnext trail := by
    obtain ⟨added, htranscript, hended⟩ := hfirst trail
    obtain ⟨more, hmore, hends⟩ := hnext (program.runFrom trail).1 (program.runFrom trail).2
    rw [Transcribed.runFrom_bind]
    refine ⟨added ++ more, by rw [hmore, htranscript, List.append_assoc], fun hnone => ?_, ?_⟩
    · rw [List.mem_append, not_or] at hnone
      rw [ExceptT.run_bind, StateT.run_bind, hended.ok hnone.1]
      exact hends.ok hnone.2
    · intro hoverflow
      rw [ExceptT.run_bind, StateT.run_bind]
      by_cases hearly : Request.overflow ∈ added
      · -- The first program has ended in the fault, so the next one is not run.
        have hfault := hended.error hearly
        generalize checked.run.run trail.state = outcome at hfault
        obtain ⟨ended, state⟩ := outcome
        obtain rfl : ended = .error .overflow := hfault
        rfl
      · rw [hended.ok hearly]
        exact hends.error ((List.mem_append.1 hoverflow).resolve_left hearly)

end Simulation

/-- A checked environment answers as it does unchecked, up to the first overflow. -/
theorem answersAlike_checking (σ : Type) [Environment (StateM σ)] :
    (Simulation.checking σ).AnswersAlike where
  resolve scope name trail := ⟨[.resolve scope name], rfl, fun _ => rfl, by simp⟩
  assign scope name value trail := ⟨[.assign scope name value], rfl, fun _ => rfl, by simp⟩
  drawSample trail := ⟨[.draw _], rfl, fun _ => rfl, by simp⟩
  reportMiss scope name trail := ⟨[.miss scope name], rfl, fun _ => rfl, by simp⟩
  reportOverflow trail := ⟨[.overflow], rfl, by simp, fun _ => rfl⟩
  prepare trail := ⟨[.prepare], rfl, fun _ => rfl, by simp⟩

/-- A checked program that ends is the program that takes no notice of overflows. -/
theorem run_of_checked {α : Type} {checked : Checked (StateM σ) α}
    {program : Transcribed (StateM σ) α} {plain : StateM σ α}
    (hchecked : (Simulation.checking σ).Relates checked program)
    (hplain : (Simulation.forgetting (StateM σ)).Relates program plain) {state after : σ}
    {value : α} (hrun : checked.run.run state = (.ok value, after)) :
    plain.run state = (value, after) := by
  obtain ⟨added, -, hends⟩ := hchecked ⟨[], state⟩
  have hnone : Request.overflow ∉ added := by
    intro hoverflow
    have hfault := hends.error hoverflow
    rw [hrun] at hfault
    cases hfault
  have hok := hends.ok hnone
  rw [hrun] at hok
  obtain ⟨hvalue, hafter⟩ := Prod.mk.inj hok
  rw [← hplain [], Except.ok.inj hvalue, hafter]
  rfl

variable [Environment (StateM σ)]

/-- A checked evaluation that ends has the value of the evaluation itself, and leaves its state. -/
theorem run_evaluate_of_checked {e : Expr} {state after : σ} {value : Float32}
    (hrun : (e.evaluate : Checked (StateM σ) Float32).run.run state = (.ok value, after)) :
    (e.evaluate : StateM σ Float32).run state = (value, after) :=
  run_of_checked ((answersAlike_checking σ).relates_evaluate e)
    ((Transcribed.answersAlike_forgetting _).relates_evaluate e) hrun

/-- A checked update of a set of curves that ends is the update itself. -/
theorem run_update_of_checked {set : CurveTable} {state after : σ}
    (hrun : (set.update : Checked (StateM σ) Unit).run.run state = (.ok (), after)) :
    (set.update : StateM σ Unit).run state = ((), after) :=
  run_of_checked ((answersAlike_checking σ).relates_update set)
    ((Transcribed.answersAlike_forgetting _).relates_update set) hrun

/-- A checked evaluation ends in a fault exactly if the transcript of the evaluation shows an
overflow. -/
theorem checked_evaluate_eq_error_iff (e : Expr) (state : σ) :
    ((e.evaluate : Checked (StateM σ) Float32).run.run state).1 = .error .overflow ↔
      .overflow ∈ (Transcribed.runFrom ⟨[], state⟩ e.evaluate).2.transcript := by
  obtain ⟨added, htranscript, hends⟩ := (answersAlike_checking σ).relates_evaluate e ⟨[], state⟩
  rw [htranscript, List.nil_append]
  refine ⟨fun hfault => Classical.byContradiction fun hnone => ?_, hends.error⟩
  rw [hends.ok hnone] at hfault
  cases hfault

end MotionScript
