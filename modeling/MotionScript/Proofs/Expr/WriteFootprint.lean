import MotionScript.Proofs.Context.View
import MotionScript.Proofs.Environment.Keeping
import MotionScript.Proofs.Expr.Randomness
/-!
# What an expression changes

The names that `writes` lists are all that an expression changes in its context, and of these only
variables and temps: a write to another scope has no effect.  No name loses its value, and the
random numbers go on only where `isRandom` says that they may.  What the sources of the host and the
log go through is no part of the context.
-/

namespace MotionScript

open MotionScript.Expr (Name)

/-- A context after changes to the values of some names, and to its random numbers. -/
structure Context.ChangesOnly (names : List Name) (before after : Context) : Prop where
  queries : after.queries = before.queries
  contextValues : after.contextValues = before.contextValues
  /-- What is behind other names stays there. -/
  provider?_eq : ∀ name, name ∉ names → after.provider? name = before.provider? name
  /-- No name loses its value. -/
  provider?_ne_none : ∀ name, before.provider? name ≠ none → after.provider? name ≠ none

namespace Context.ChangesOnly

variable {names : List Name} {before between after : Context}

theorem refl (names : List Name) (context : Context) : ChangesOnly names context context :=
  ⟨rfl, rfl, fun _ _ => rfl, fun _ hbound => hbound⟩

theorem trans (hfirst : ChangesOnly names before between)
    (hsecond : ChangesOnly names between after) : ChangesOnly names before after where
  queries := hsecond.queries.trans hfirst.queries
  contextValues := hsecond.contextValues.trans hfirst.contextValues
  provider?_eq name hname :=
    (hsecond.provider?_eq name hname).trans (hfirst.provider?_eq name hname)
  provider?_ne_none name hbound :=
    hsecond.provider?_ne_none name (hfirst.provider?_ne_none name hbound)

/-- An assignment changes its own name only. -/
theorem assign {scope : Scope} {name : String} (hmem : (scope, name) ∈ names)
    (context : Context) (value : Float32) :
    ChangesOnly names context (context.assign scope name value) where
  queries := by cases scope <;> rfl
  contextValues := by cases scope <;> rfl
  provider?_eq other hother := by
    rw [provider?_assign, if_neg]
    rintro ⟨_, rfl⟩
    exact hother hmem
  provider?_ne_none other hbound := by
    rw [provider?_assign]
    split
    · exact Option.some_ne_none _
    · exact hbound

theorem withRandom (names : List Name) (context : Context) (random : Random) :
    ChangesOnly names context { context with random } where
  queries := rfl
  contextValues := rfl
  provider?_eq name _ := provider?_withRandom context random name
  provider?_ne_none name hbound := by rwa [provider?_withRandom]

end Context.ChangesOnly

namespace Session

/-- Reading a name changes nothing but a source of the host. -/
theorem context_run_resolve (scope : Scope) (name : String) (session : Session) :
    ((resolve scope name).run session).2.context = session.context := by
  rw [run_resolve]
  split <;> rfl

end Session

open Context (ChangesOnly)

/-- An expression changes nothing in the context but the names that it writes. -/
theorem context_run_evaluate_changesOnly (e : Expr) (session : Session) :
    ChangesOnly e.writes session.context
      ((e.evaluate : StateM Session Float32).run session).2.context := by
  apply e.evaluate_keeps fun before after : Session =>
    ChangesOnly e.writes before.context after.context
  case hrefl => exact fun session => .refl _ session.context
  case htrans => exact fun hfirst hsecond => hfirst.trans hsecond
  case hsample => exact fun _ session => .withRandom _ session.context _
  case hmiss => exact fun _ _ session => .refl _ session.context
  case hoverflow => exact fun session => .refl _ session.context
  case hreads =>
    intro name _ session
    exact (Session.context_run_resolve name.1 name.2 session).symm ▸ .refl _ session.context
  case hwrites => exact fun name hname value session => .assign hname session.context value

/-- An expression without random functions leaves the random numbers as they are. -/
theorem random_run_evaluate {e : Expr} (hplain : e.isRandom = false) (session : Session) :
    ((e.evaluate : StateM Session Float32).run session).2.context.random =
      session.context.random := by
  apply e.evaluate_keeps fun before after : Session =>
    after.context.random = before.context.random
  case hrefl => exact fun _ => rfl
  case htrans => exact fun hfirst hsecond => hsecond.trans hfirst
  case hsample => exact fun hrandom => absurd hrandom (Bool.eq_false_iff.1 hplain)
  case hmiss => exact fun _ _ _ => rfl
  case hoverflow => exact fun _ => rfl
  case hreads =>
    intro name _ session
    exact congrArg Context.random (Session.context_run_resolve name.1 name.2 session)
  case hwrites =>
    exact fun name _ value session => Context.random_assign session.context name.1 name.2 value

/-- Whatever the expression, evaluation changes a context at most at variables and temps that the
expression writes, and unbinds nothing.  If the expression is not random, the random numbers stay
where they are, and neither simplifying nor binding makes it random. -/
theorem evaluate_changesOnly_writes (e : Expr) (session : Session) :
    let after := ((e.evaluate : StateM Session Float32).run session).2.context
    ChangesOnly e.writes session.context after ∧
      (e.isRandom = false →
        after.random = session.context.random ∧ e.simplify.isRandom = false ∧
          ∀ binders values, (e.bind binders values).isRandom = false) := by
  refine ⟨context_run_evaluate_changesOnly e session, fun hplain => ⟨?_, ?_, ?_⟩⟩
  · exact random_run_evaluate hplain session
  · exact Expr.not_isRandom_simplify hplain
  · exact fun binders values => (Expr.isRandom_bind binders values e).trans hplain

/-- The assignments stand in a condition, in an argument and behind another one.  The one to a query
has no effect, and the query itself is read from a source of the host. -/
theorem evaluate_changesOnly_writes_nested :
    let e : Expr := .sequence [
      .assign .set .query "age" (.assign .add .variable "sum" (.reference .query "age")),
      .conditional (.assign .set .temp "seen" (.constant 1))
        (.call .abs [.assign .sub .variable "sum" (.constant 9)]) (.constant 0)]
    let context := ((Context.ofSeed 7).withQuery "age" (.live 0)).withVariable "other" 3
    let session : Session := ⟨context, MissLog.ofWindow 0, [⟨fun reading => reading.toFloat32, 4⟩]⟩
    let after := ((e.evaluate : StateM Session Float32).run session).2.context
    e.isRandom = false ∧ ChangesOnly e.writes context after ∧ after.random = context.random ∧
      e.simplify.isRandom = false ∧ ∀ binders values, (e.bind binders values).isRandom = false := by
  intro e context session after
  have hplain : e.isRandom = false := rfl
  obtain ⟨hchanges, hrandom⟩ := evaluate_changesOnly_writes e session
  exact ⟨hplain, hchanges, hrandom hplain⟩

end MotionScript
