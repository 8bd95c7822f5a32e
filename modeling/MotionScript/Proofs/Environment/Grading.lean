import MotionScript.Proofs.Environment.Simulation
import MotionScript.Proofs.Expr.Subtree
/-!
# Names that an evaluation collects

Two things are said of an evaluation by the names that it comes to: which names it asks for, and
which names it reports as missing.  Both are put together from what a single look-up and a single
assignment come to, in the order of evaluation.  What is common to them is shown here once, for any
property of programs that comes with a list of names.
-/

namespace MotionScript

open MotionScript.Expr (Name)

namespace Expr

/-- Whether the root can skip one of the expressions below it. -/
def canSkip : Expr → Bool
  | .binary .and _ _ | .binary .or _ _ | .conditional _ _ _ => true
  | _ => false

/-- No part of the expression can be skipped. -/
def RunsWhole (e : Expr) : Prop :=
  ∀ part, Occurs part e → part.canSkip = false

instance (e : Expr) : Decidable e.RunsWhole :=
  inferInstanceAs (Decidable (∀ part, Occurs part e → part.canSkip = false))

theorem RunsWhole.root {e : Expr} (hwhole : e.RunsWhole) : e.canSkip = false :=
  hwhole e .root

theorem RunsWhole.child {e child : Expr} (hwhole : e.RunsWhole) (hchild : child ∈ e.children) :
    child.RunsWhole :=
  (forall_occurs_iff.1 hwhole).2 child hchild

section Collect

variable (lookup : Scope → String → List Name) (store : AssignOp → Scope → String → List Name)

mutual

/-- The names of all look-ups and assignments, in the order of evaluation. -/
def collect : Expr → List Name
  | .constant _ => []
  | .reference scope name => lookup scope name
  | .unary _ operand => operand.collect
  | .binary _ left right => left.collect ++ right.collect
  | .conditional condition whenTrue whenFalse =>
    condition.collect ++ (whenTrue.collect ++ whenFalse.collect)
  | .assign operator scope name value => value.collect ++ store operator scope name
  | .sequence statements => collectAll statements
  | .call _ arguments => collectAll arguments

def collectAll : List Expr → List Name
  | [] => []
  | e :: es => e.collect ++ collectAll es

end

end Collect

end Expr

/-- A property of programs together with a list of names, to which the names of a program that
follows are added. -/
structure Grading (m : Type → Type) [Monad m] where
  Has {α : Type} : m α → List Name → Prop
  pure {α : Type} (value : α) : Has (pure value) []
  bind {α β : Type} {program : m α} {next : α → m β} {first second : List Name} :
    Has program first → (∀ value, Has (next value) second) →
      Has (program >>= next) (first ++ second)

namespace Grading

variable {m : Type → Type} [Monad m] (grading : Grading m) {α β : Type} {names : List Name}

/-- The names can be among others, if the order stays. -/
def AllowsMore : Prop :=
  ∀ {α : Type} {program : m α} {first second : List Name},
    grading.Has program first → first.Sublist second → grading.Has program second

/-- What follows in silence adds no name. -/
theorem andThen {program : m α} {next : α → m β} (hfirst : grading.Has program names)
    (hnext : ∀ value, grading.Has (next value) []) : grading.Has (program >>= next) names :=
  List.append_nil names ▸ grading.bind hfirst hnext

/-- Beside itself, a program without names. -/
def silent : Simulation m m where
  Relates left right := left = right ∧ grading.Has left []
  pure value := ⟨rfl, grading.pure value⟩
  bind := by
    rintro α β left _ leftNext rightNext ⟨rfl, hleft⟩ hnext
    have hsame : leftNext = rightNext := funext fun value => (hnext value).1
    exact ⟨by rw [hsame], grading.bind hleft fun value => (hnext value).2⟩

variable {lookup : Scope → String → List Name} {store : AssignOp → Scope → String → List Name}
variable [Environment m]

/-- Arguments one after the other have the grades of the arguments, one after the other. -/
theorem evaluateAll {es : List Expr}
    (hes : ∀ e ∈ es, grading.Has (e.evaluate : m Float32) (e.collect lookup store)) :
    grading.Has (Expr.evaluateAll es : m (List Float32)) (Expr.collectAll lookup store es) := by
  induction es with
  | nil => exact grading.pure []
  | cons e es ih =>
      rw [List.forall_mem_cons] at hes
      apply grading.bind hes.1
      intro value
      exact grading.andThen (ih hes.2) fun values => grading.pure (value :: values)

/-- Statements one after the other have the grades of the statements, one after the other. -/
theorem evaluateLast {es : List Expr} (last : Float32)
    (hes : ∀ e ∈ es, grading.Has (e.evaluate : m Float32) (e.collect lookup store)) :
    grading.Has (Expr.evaluateLast es last : m Float32) (Expr.collectAll lookup store es) := by
  induction es generalizing last with
  | nil => exact grading.pure last
  | cons e es ih =>
      rw [List.forall_mem_cons] at hes
      exact grading.bind hes.1 fun value => ih value hes.2

/-- An operator may skip its right operand only if the names of that operand may be left out. -/
theorem binary {operator : BinaryOp} {left right : Expr} {first second : List Name}
    (hskip : (Expr.binary operator left right).canSkip = false ∨ grading.AllowsMore)
    (hleft : grading.Has (left.evaluate : m Float32) first)
    (hright : grading.Has (right.evaluate : m Float32) second) :
    grading.Has ((Expr.binary operator left right).evaluate : m Float32) (first ++ second) := by
  cases operator with
  | and =>
      have hmore : grading.AllowsMore := hskip.resolve_left (by simp [Expr.canSkip])
      apply grading.bind hleft
      intro x
      split
      · exact grading.andThen hright fun y => grading.pure _
      · exact hmore (grading.pure 0) (List.nil_sublist _)
  | or =>
      have hmore : grading.AllowsMore := hskip.resolve_left (by simp [Expr.canSkip])
      apply grading.bind hleft
      intro x
      split
      · exact hmore (grading.pure 1) (List.nil_sublist _)
      · exact grading.andThen hright fun y => grading.pure _
  | _ => exact grading.bind hleft fun x => grading.andThen hright fun y => grading.pure _

/-- The names of an evaluation are those of its look-ups and assignments, if they may be more than
come up or no part of the expression is skipped. -/
theorem evaluate {e : Expr} (hskip : e.RunsWhole ∨ grading.AllowsMore)
    (hlookup : ∀ scope name,
      grading.Has (Expr.lookup scope name : m Float32) (lookup scope name))
    (hstore : ∀ operator scope name new,
      grading.Has (Expr.store operator scope name new : m Float32) (store operator scope name))
    (hdraw : grading.Has (Environment.drawSample : m Float32) [])
    (hoverflow : grading.Has (Environment.reportOverflow : m Unit) []) :
    grading.Has (e.evaluate : m Float32) (e.collect lookup store) := by
  induction e with
  | constant value => exact grading.pure value
  | reference scope name => exact hlookup scope name
  | unary operator operand ih =>
      have hoperand := ih (hskip.imp_left (·.child (by simp [Expr.children])))
      exact grading.andThen hoperand fun x => grading.pure _
  | binary operator left right ihLeft ihRight =>
      exact grading.binary (hskip.imp_left (·.root))
        (ihLeft (hskip.imp_left (·.child (by simp [Expr.children]))))
        (ihRight (hskip.imp_left (·.child (by simp [Expr.children]))))
  | conditional condition whenTrue whenFalse ihCondition ihTrue ihFalse =>
      have hmore : grading.AllowsMore :=
        hskip.resolve_left fun hwhole => by simpa [Expr.canSkip] using hwhole.root
      apply grading.bind (ihCondition (.inr hmore))
      intro x
      split
      · exact hmore (ihTrue (.inr hmore)) (List.sublist_append_left _ _)
      · exact hmore (ihFalse (.inr hmore)) (List.sublist_append_right _ _)
  | assign operator scope name value ih =>
      have hvalue := ih (hskip.imp_left (·.child (by simp [Expr.children])))
      exact grading.bind hvalue fun new => hstore operator scope name new
  | sequence statements ih =>
      exact grading.evaluateLast 0 fun e he => ih e he (hskip.imp_left (·.child he))
  | call function arguments ih =>
      have harguments := grading.evaluateAll fun e he => ih e he (hskip.imp_left (·.child he))
      apply grading.andThen harguments
      exact fun values =>
        (grading.silent.relates_call (fun _ => ⟨rfl, hdraw⟩) ⟨rfl, hoverflow⟩ values).2

end Grading

end MotionScript
