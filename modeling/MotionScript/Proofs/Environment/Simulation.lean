import MotionScript.Environment
import MotionScript.Expr.Bind
import MotionScript.Proofs.Environment.Transcript
import MotionScript.Proofs.Expr.Induction
/-!
# Simulations

Two runs of expressions are compared through a relation between programs that is kept when programs
are put together.  What has to be shown of such a relation is only how the two environments answer;
that the runs of whole expressions are then related is shown here once.  One of the two expressions
may have constants in place of references of the other.
-/

namespace MotionScript

open MotionScript.Expr (Name)

/-- A relation between programs over two monads that is kept by putting programs together. -/
structure Simulation (m n : Type → Type) [Monad m] [Monad n] where
  Relates {α : Type} : m α → n α → Prop
  pure {α : Type} (value : α) : Relates (pure value) (pure value)
  bind {α β : Type} {left : m α} {right : n α} {leftNext : α → m β} {rightNext : α → n β} :
    Relates left right → (∀ value, Relates (leftNext value) (rightNext value)) →
      Relates (left >>= leftNext) (right >>= rightNext)

namespace Simulation

/-- Programs that have the same value and leave related trails wherever they go on from related
trails. -/
def ofTrails {σ τ : Type} (related : Trail σ → Trail τ → Prop) :
    Simulation (Transcribed (StateM σ)) (Transcribed (StateM τ)) where
  Relates left right := ∀ leftTrail rightTrail, related leftTrail rightTrail →
    (left.runFrom leftTrail).1 = (right.runFrom rightTrail).1 ∧
      related (left.runFrom leftTrail).2 (right.runFrom rightTrail).2
  pure _ _ _ hrelated := ⟨rfl, hrelated⟩
  bind {_ _ left right leftNext rightNext} hfirst hnext leftTrail rightTrail hrelated := by
    obtain ⟨hvalue, htrails⟩ := hfirst _ _ hrelated
    simp only [Transcribed.runFrom_bind, ← hvalue]
    exact hnext _ _ _ htrails

variable {m n : Type → Type} [Monad m] [Monad n] (simulation : Simulation m n)

/-- Related programs run one after the other are related. -/
theorem relates_mapM [LawfulMonad m] [LawfulMonad n] {α β : Type} {left : α → m β}
    {right : α → n β} {inputs : List α}
    (hinputs : ∀ input ∈ inputs, simulation.Relates (left input) (right input)) :
    simulation.Relates (inputs.mapM left) (inputs.mapM right) := by
  induction inputs with
  | nil => exact simulation.pure []
  | cons input inputs ih =>
      rw [List.forall_mem_cons] at hinputs
      rw [List.mapM_cons, List.mapM_cons]
      apply simulation.bind hinputs.1
      intro result
      exact simulation.bind (ih hinputs.2) fun results => simulation.pure _

/-! ### Functions that draw samples -/

section Samples

variable {leftSample : m Float32} {rightSample : n Float32}
variable {leftOverflow : m Unit} {rightOverflow : n Unit}

/-- A dice roll draws its samples alike if each draw and each addition is alike. -/
theorem relates_roll {β : Type} {leftAdd : β → Float32 → m β} {rightAdd : β → Float32 → n β}
    (hsample : simulation.Relates leftSample rightSample)
    (hadd : ∀ sum sample, simulation.Relates (leftAdd sum sample) (rightAdd sum sample))
    (count : Nat) (sum : β) :
    simulation.Relates (Dice.roll leftSample leftAdd count sum)
      (Dice.roll rightSample rightAdd count sum) := by
  induction count generalizing sum with
  | zero => exact simulation.pure sum
  | succ count ih =>
      apply simulation.bind hsample
      intro sample
      exact simulation.bind (hadd sum sample) fun sum => ih sum

section Overflow

variable (hoverflow : simulation.Relates leftOverflow rightOverflow)
include hoverflow

theorem relates_check (within : Prop) [Decidable within] :
    simulation.Relates (Dice.check leftOverflow within) (Dice.check rightOverflow within) := by
  unfold Dice.check
  split
  · exact simulation.pure ()
  · exact hoverflow

theorem relates_checkedInteger (lower upper : Int64) (sample : Float32) :
    simulation.Relates (Dice.checkedInteger leftOverflow lower upper sample)
      (Dice.checkedInteger rightOverflow lower upper sample) :=
  simulation.bind (simulation.relates_check hoverflow _) fun _ => simulation.pure _

theorem relates_addInteger (lower upper sum : Int64) (sample : Float32) :
    simulation.Relates (Dice.addInteger leftOverflow lower upper sum sample)
      (Dice.addInteger rightOverflow lower upper sum sample) := by
  apply simulation.bind (simulation.relates_checkedInteger hoverflow lower upper sample)
  intro die
  exact simulation.bind (simulation.relates_check hoverflow _) fun _ => simulation.pure _

end Overflow

/-- A function runs alike where overflows are told alike, and samples are if it draws any. -/
theorem relates_call {function : MathFunction}
    (hsample : function.isRandom = true → simulation.Relates leftSample rightSample)
    (hoverflow : simulation.Relates leftOverflow rightOverflow) (arguments : List Float32) :
    simulation.Relates (function.apply leftSample leftOverflow arguments)
      (function.apply rightSample rightOverflow arguments) := by
  cases function with
  | dieRoll => exact simulation.relates_roll (hsample rfl) (fun _ _ => simulation.pure _) _ _
  | dieRollInteger =>
      apply simulation.bind
      · exact simulation.relates_roll (hsample rfl)
          (simulation.relates_addInteger hoverflow _ _) _ _
      · exact fun _ => simulation.pure _
  | random => exact simulation.bind (hsample rfl) fun _ => simulation.pure _
  | randomInteger =>
      apply simulation.bind (hsample rfl)
      intro sample
      apply simulation.bind (simulation.relates_checkedInteger hoverflow _ _ sample)
      exact fun _ => simulation.pure _
  | _ => exact simulation.pure _

end Samples

/-! ### Expressions -/

/-- The value of a name that has been bound, and otherwise what the environment says. -/
def resolveBound [Environment m] (value? : Name → Option Float32) (name : Name) :
    m (Option Float32) :=
  match value? name with
  | some value => Pure.pure (some value)
  | none => Environment.resolve name.1 name.2

section Evaluation

variable [Environment m] [Environment n]
variable (value? : Name → Option Float32)

/-- The environments agree about a name that is read: on the left it may have been bound. -/
def AgreesOnRead (name : Name) : Prop :=
  simulation.Relates (resolveBound value? name : m (Option Float32))
    (Environment.resolve name.1 name.2 : n (Option Float32))

/-- The environments agree about a name that is written, and it has not been bound. -/
def AgreesOnWrite (name : Name) : Prop :=
  value? name = none ∧ ∀ value : Float32,
    simulation.Relates (Environment.assign name.1 name.2 value : m Unit)
      (Environment.assign name.1 name.2 value : n Unit)

variable {value?} {simulation}
variable (hmiss : ∀ (scope : Scope) (name : String),
  simulation.Relates (Environment.reportMiss scope name : m Unit)
    (Environment.reportMiss scope name : n Unit))
variable (hoverflow : simulation.Relates (Environment.reportOverflow : m Unit)
  (Environment.reportOverflow : n Unit))

include hmiss in
/-- A name is looked up alike, bound or not, if the environments agree on reading it. -/
theorem relates_lookup [LawfulMonad m] {scope : Scope} {name : String}
    (hread : simulation.AgreesOnRead (m := m) (n := n) value? (scope, name)) :
    simulation.Relates (((Expr.reference scope name).substitute value?).evaluate : m Float32)
      (Expr.lookup scope name : n Float32) := by
  -- A bound name is one whose look-up has a known answer.
  have hlookup : (((Expr.reference scope name).substitute value?).evaluate : m Float32) =
      resolveBound value? (scope, name) >>= fun
        | some value => return value
        | none => do
          Environment.reportMiss scope name
          return 0 := by
    cases hvalue : value? (scope, name) with
    | some value => simp [Expr.substitute, Expr.evaluate, resolveBound, hvalue]
    | none =>
        simp only [Expr.substitute, Expr.evaluate, resolveBound, hvalue]
        rfl
  rw [hlookup]
  apply simulation.bind hread
  intro found
  cases found with
  | some value => exact simulation.pure value
  | none => exact simulation.bind (hmiss scope name) fun _ => simulation.pure 0

/-- A value is stored alike if the environments agree on the target. The old value is only read if
the operator combines it with the new one. -/
theorem relates_store {operator : AssignOp} {scope : Scope} {name : String}
    (hread : operator ≠ .set → simulation.AgreesOnRead (m := m) (n := n) value? (scope, name))
    (hwrite : simulation.AgreesOnWrite (m := m) (n := n) value? (scope, name)) (new : Float32) :
    simulation.Relates (Expr.store operator scope name new : m Float32)
      (Expr.store operator scope name new : n Float32) := by
  have hresolve (hoperator : operator ≠ .set) :
      simulation.Relates (Environment.resolve scope name : m (Option Float32))
        (Environment.resolve scope name : n (Option Float32)) := by
    simpa only [AgreesOnRead, resolveBound, hwrite.1] using hread hoperator
  have hassign (value : Float32) :
      simulation.Relates
        (do Environment.assign scope name value; return value : m Float32)
        (do Environment.assign scope name value; return value : n Float32) :=
    simulation.bind (hwrite.2 value) fun _ => simulation.pure value
  cases operator with
  | set => exact simulation.bind (simulation.pure new) hassign
  | _ =>
      apply simulation.bind (hresolve (by decide))
      intro stored
      exact simulation.bind (simulation.pure _) hassign

/-- Arguments run alike if each of them does. -/
theorem relates_evaluateAll {es : List Expr}
    (hes : ∀ e ∈ es, simulation.Relates ((e.substitute value?).evaluate : m Float32)
      (e.evaluate : n Float32)) :
    simulation.Relates (Expr.evaluateAll (es.map (Expr.substitute value?)) : m (List Float32))
      (Expr.evaluateAll es : n (List Float32)) := by
  induction es with
  | nil => exact simulation.pure []
  | cons e es ih =>
      rw [List.forall_mem_cons] at hes
      apply simulation.bind hes.1
      intro value
      exact simulation.bind (ih hes.2) fun values => simulation.pure (value :: values)

theorem relates_evaluateLast {es : List Expr} (last : Float32)
    (hes : ∀ e ∈ es, simulation.Relates ((e.substitute value?).evaluate : m Float32)
      (e.evaluate : n Float32)) :
    simulation.Relates (Expr.evaluateLast (es.map (Expr.substitute value?)) last : m Float32)
      (Expr.evaluateLast es last : n Float32) := by
  induction es generalizing last with
  | nil => exact simulation.pure last
  | cons e es ih =>
      rw [List.forall_mem_cons] at hes
      exact simulation.bind hes.1 fun value => ih value hes.2

/-- Both sides are evaluated alike, also where the operator decides on the right one. -/
theorem relates_binary {operator : BinaryOp} {left right left' right' : Expr}
    (hleft : simulation.Relates (left'.evaluate : m Float32) (left.evaluate : n Float32))
    (hright : simulation.Relates (right'.evaluate : m Float32) (right.evaluate : n Float32)) :
    simulation.Relates ((Expr.binary operator left' right').evaluate : m Float32)
      ((Expr.binary operator left right).evaluate : n Float32) := by
  cases operator with
  | and =>
      apply simulation.bind hleft
      intro x
      split
      · exact simulation.bind hright fun y => simulation.pure _
      · exact simulation.pure 0
  | or =>
      apply simulation.bind hleft
      intro x
      split
      · exact simulation.pure 1
      · exact simulation.bind hright fun y => simulation.pure _
  | _ =>
      apply simulation.bind hleft
      intro x
      exact simulation.bind hright fun y => simulation.pure _

include hmiss hoverflow in
/-- An expression with bound names and the expression itself run alike if the environments agree on
every name that the expression reads or writes, and on samples if it may draw any. -/
theorem relates_evaluate [LawfulMonad m] {e : Expr}
    (hsample : e.isRandom = true → simulation.Relates (Environment.drawSample : m Float32)
      (Environment.drawSample : n Float32))
    (hreads : ∀ name ∈ e.reads, simulation.AgreesOnRead (m := m) (n := n) value? name)
    (hwrites : ∀ name ∈ e.writes, simulation.AgreesOnWrite (m := m) (n := n) value? name) :
    simulation.Relates ((e.substitute value?).evaluate : m Float32)
      (e.evaluate : n Float32) := by
  induction e with
  | constant value => exact simulation.pure value
  | reference scope name =>
      exact relates_lookup hmiss (hreads _ (List.mem_singleton_self _))
  | unary operator operand ih =>
      exact simulation.bind (ih hsample hreads hwrites) fun x => simulation.pure _
  | binary operator left right ihLeft ihRight =>
      simp only [Expr.isRandom, Bool.or_eq_true, or_imp] at hsample
      simp only [Expr.reads, Expr.writes, List.forall_mem_append] at hreads hwrites
      exact relates_binary (ihLeft hsample.1 hreads.1 hwrites.1)
        (ihRight hsample.2 hreads.2 hwrites.2)
  | conditional condition whenTrue whenFalse ihCondition ihTrue ihFalse =>
      simp only [Expr.isRandom, Bool.or_eq_true, or_imp] at hsample
      simp only [Expr.reads, Expr.writes, List.forall_mem_append] at hreads hwrites
      apply simulation.bind (ihCondition hsample.1.1 hreads.1.1 hwrites.1.1)
      intro x
      split
      · exact ihTrue hsample.1.2 hreads.1.2 hwrites.1.2
      · exact ihFalse hsample.2 hreads.2 hwrites.2
  | assign operator scope name value ih =>
      simp only [Expr.reads, Expr.writes, List.forall_mem_append, List.forall_mem_cons]
        at hreads hwrites
      apply simulation.bind (ih hsample hreads.2 hwrites.2)
      intro new
      refine relates_store (fun hoperator => ?_) hwrites.1 new
      exact hreads.1 _ (by simp [hoperator])
  | sequence statements ih =>
      simp only [Expr.isRandom, Expr.anyRandom_eq_any, List.any_eq_true] at hsample
      simp only [Expr.reads, Expr.writes, Expr.allReads_eq_flatMap, Expr.allWrites_eq_flatMap,
        List.mem_flatMap] at hreads hwrites
      rw [Expr.substitute, Expr.substituteAll_eq_map]
      refine relates_evaluateLast 0 fun e he => ih e he ?_ ?_ ?_
      · exact fun hrandom => hsample ⟨e, he, hrandom⟩
      · exact fun name hname => hreads name ⟨e, he, hname⟩
      · exact fun name hname => hwrites name ⟨e, he, hname⟩
  | call function arguments ih =>
      simp only [Expr.isRandom, Bool.or_eq_true, or_imp, Expr.anyRandom_eq_any, List.any_eq_true]
        at hsample
      simp only [Expr.reads, Expr.writes, Expr.allReads_eq_flatMap, Expr.allWrites_eq_flatMap,
        List.mem_flatMap] at hreads hwrites
      rw [Expr.substitute, Expr.substituteAll_eq_map]
      refine simulation.bind (relates_evaluateAll fun e he => ih e he ?_ ?_ ?_) fun values => ?_
      · exact fun hrandom => hsample.2 ⟨e, he, hrandom⟩
      · exact fun name hname => hreads name ⟨e, he, hname⟩
      · exact fun name hname => hwrites name ⟨e, he, hname⟩
      · exact simulation.relates_call hsample.1 hoverflow values

end Evaluation

end Simulation

end MotionScript
