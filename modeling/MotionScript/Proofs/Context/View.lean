import MotionScript.Context
import MotionScript.Proofs.Environment.Transcript
/-!
# Contexts as maps of names

Four tables hold the values of a context, one for each scope.  Seen through `provider?` they are one
map from names to what is behind them, and reading, writing and presetting a name are described on
this map without a case for each scope.
-/

namespace MotionScript

open MotionScript.Expr (Name)

namespace Context

/-- What is behind a name; only a query can have a source of the host behind it. -/
def provider? (context : Context) : Name → Option Provider
  | (.variable, name) => (context.variableValues.get? name).map .fixed
  | (.query, name) => context.queries.get? name
  | (.temp, name) => (context.tempValues.get? name).map .fixed
  | (.context, name) => (context.contextValues.get? name).map .fixed

/-- Gives a name of any scope a value of its own. -/
def preset (context : Context) (name : Name) (value : Float32) : Context :=
  match name with
  | (.variable, name) => context.withVariable name value
  | (.query, name) => context.withQuery name (.fixed value)
  | (.temp, name) => context.withTemp name value
  | (.context, name) => context.withContext name value

/-- A preset value is found under its own name and hides no other. -/
theorem provider?_preset (context : Context) (name other : Name) (value : Float32) :
    (context.preset name value).provider? other =
      if name = other then some (.fixed value) else context.provider? other := by
  obtain ⟨scope, name⟩ := name
  obtain ⟨otherScope, other⟩ := other
  by_cases hname : name = other <;> cases scope <;> cases otherScope <;>
    simp [preset, provider?, withVariable, withQuery, withTemp, withContext, Table.get?_insert,
      hname]

@[simp]
theorem random_preset (context : Context) (name : Name) (value : Float32) :
    (context.preset name value).random = context.random := by
  obtain ⟨scope, name⟩ := name
  cases scope <;> rfl

/-- An assignment presets its name if the scope can be written, and has no effect otherwise. -/
theorem assign_eq (context : Context) (scope : Scope) (name : String) (value : Float32) :
    context.assign scope name value =
      if scope.isWritable then context.preset (scope, name) value else context := by
  cases scope <;> rfl

theorem random_assign (context : Context) (scope : Scope) (name : String) (value : Float32) :
    (context.assign scope name value).random = context.random := by
  rw [assign_eq]
  split
  · rw [random_preset]
  · rfl

/-- An assignment is seen under its own name only, and only if the scope can be written to. -/
theorem provider?_assign (context : Context) (scope : Scope) (name : String) (value : Float32)
    (other : Name) :
    (context.assign scope name value).provider? other =
      if scope.isWritable = true ∧ (scope, name) = other then some (.fixed value)
      else context.provider? other := by
  rw [assign_eq]
  by_cases hwritable : scope.isWritable = true
  · simp [provider?_preset, hwritable]
  · simp [hwritable]

theorem provider?_withRandom (context : Context) (random : Random) (name : Name) :
    ({ context with random } : Context).provider? name = context.provider? name := by
  obtain ⟨scope, name⟩ := name
  cases scope <;> rfl

/-! ### Contexts without sources of the host -/

/-- No query has a source of the host behind it. -/
def IsFixed (context : Context) : Prop :=
  ∀ name source, context.queries.get? name ≠ some (.live source)

/-- The value that a name has without the host being asked. -/
def value? (context : Context) (name : Name) : Option Float32 :=
  (context.provider? name).bind fun
    | .fixed value => some value
    | .live _ => none

/-- A fixed context has no other providers than values. -/
theorem IsFixed.provider?_eq {context : Context} (hfixed : context.IsFixed) (name : Name) :
    context.provider? name = (context.value? name).map .fixed := by
  have hvalue (found : Option Float32) :
      found.map Provider.fixed = ((found.map Provider.fixed).bind fun
        | .fixed value => some value
        | .live _ => none).map .fixed := by
    cases found <;> rfl
  obtain ⟨scope, name⟩ := name
  cases scope with
  | query =>
      have hlive := hfixed name
      change context.queries.get? name = ((context.queries.get? name).bind _).map _
      cases hfound : context.queries.get? name with
      | none => rfl
      | some provider =>
          cases provider with
          | fixed value => rfl
          | live source => exact absurd hfound (hlive source)
  | «variable» => exact hvalue _
  | temp => exact hvalue _
  | context => exact hvalue _

theorem IsFixed.assign {context : Context} (hfixed : context.IsFixed) (scope : Scope)
    (name : String) (value : Float32) : (context.assign scope name value).IsFixed := by
  cases scope <;> exact hfixed

theorem isFixed_ofSeed (seed : UInt64) : (ofSeed seed).IsFixed :=
  fun _ _ hfound => nomatch hfound

/-- A query that is given a fixed value leaves a fixed context fixed. -/
theorem IsFixed.withQuery {context : Context} (hfixed : context.IsFixed) (name : String)
    (value : Float32) : (context.withQuery name (.fixed value)).IsFixed := by
  intro other source
  simp only [Context.withQuery, Table.get?_insert]
  split
  · simp
  · exact hfixed other source

theorem value?_assign (context : Context) (scope : Scope) (name : String) (value : Float32)
    (other : Name) :
    (context.assign scope name value).value? other =
      if scope.isWritable = true ∧ (scope, name) = other then some value
      else context.value? other := by
  rw [value?, provider?_assign]
  split <;> rfl

theorem value?_withRandom (context : Context) (random : Random) (name : Name) :
    ({ context with random } : Context).value? name = context.value? name :=
  congrArg (Option.bind · _) (provider?_withRandom context random name)

end Context

/-- The value behind a name, and the host after it was read. -/
def Provider.read (host : Host) : Provider → Float32 × Host
  | .fixed value => (value, host)
  | .live source => host.read source

/-- The trail after a sample was drawn, with the random numbers that were left then. -/
def Trail.afterDraw (trail : Trail Session) (drawn : Float32 × Random) : Trail Session :=
  ⟨trail.transcript ++ [.draw drawn.1],
    { trail.state with context := { trail.state.context with random := drawn.2 } }⟩

/-- Where the random numbers are the same, the same sample is drawn.  Two states that would be
related after any sample are related after this one: how it is computed plays no part. -/
theorem Random.nextUnit_related {σ τ : Type} {related : σ → τ → Prop} {random other : Random}
    (hrandom : random = other) (left : Float32 × Random → σ) (right : Float32 × Random → τ)
    (hdrawn : ∀ drawn, related (left drawn) (right drawn)) :
    random.nextUnit.1 = other.nextUnit.1 ∧
      related (left random.nextUnit) (right other.nextUnit) := by
  subst hrandom
  exact ⟨rfl, hdrawn _⟩

namespace Session

theorem run_readQuery (provider : Provider) (session : Session) :
    (readQuery provider).run session =
      ((provider.read session.host).1,
        { session with host := (provider.read session.host).2 }) := by
  cases provider <;> rfl

/-- Reading a name is reading what is behind it. -/
theorem run_resolve (scope : Scope) (name : String) (session : Session) :
    (resolve scope name).run session =
      match session.context.provider? (scope, name) with
      | some provider =>
        (some (provider.read session.host).1,
          { session with host := (provider.read session.host).2 })
      | none => (none, session) := by
  cases scope
  · cases hfound : session.context.variableValues.get? name <;>
      simp [resolve, Context.provider?, hfound] <;> rfl
  · cases hfound : session.context.queries.get? name <;>
      simp [resolve, Context.provider?, hfound, run_readQuery] <;> rfl
  · cases hfound : session.context.tempValues.get? name <;>
      simp [resolve, Context.provider?, hfound] <;> rfl
  · cases hfound : session.context.contextValues.get? name <;>
      simp [resolve, Context.provider?, hfound] <;> rfl

/-- In a fixed context a name is read without asking the host. -/
theorem run_resolve_of_isFixed {session : Session} (hfixed : session.context.IsFixed)
    (scope : Scope) (name : String) :
    (resolve scope name).run session = (session.context.value? (scope, name), session) := by
  rw [run_resolve, hfixed.provider?_eq]
  cases session.context.value? (scope, name) <;> rfl

/-! ### Requests of a session, with their transcript -/

variable (trail : Trail Session) (scope : Scope) (name : String)

/-- A name that is bound is read from its provider, and the request is written down. -/
theorem runFrom_resolve_of_some {provider : Provider}
    (hprovider : trail.state.context.provider? (scope, name) = some provider) :
    Transcribed.runFrom trail (Environment.resolve scope name) =
      (some (provider.read trail.state.host).1,
        ⟨trail.transcript ++ [.resolve scope name],
          { trail.state with host := (provider.read trail.state.host).2 }⟩) := by
  have hrun := run_resolve scope name trail.state
  rw [hprovider] at hrun
  exact congrArg (fun outcome : Option Float32 × Session =>
    (outcome.1, (⟨trail.transcript ++ [.resolve scope name], outcome.2⟩ : Trail Session))) hrun

/-- A name that is not bound gives nothing, and the request is written down all the same. -/
theorem runFrom_resolve_of_none
    (hprovider : trail.state.context.provider? (scope, name) = none) :
    Transcribed.runFrom trail (Environment.resolve scope name) =
      (none, ⟨trail.transcript ++ [.resolve scope name], trail.state⟩) := by
  have hrun := run_resolve scope name trail.state
  rw [hprovider] at hrun
  exact congrArg (fun outcome : Option Float32 × Session =>
    (outcome.1, (⟨trail.transcript ++ [.resolve scope name], outcome.2⟩ : Trail Session))) hrun

theorem runFrom_resolve_of_isFixed (hfixed : trail.state.context.IsFixed) :
    Transcribed.runFrom trail (Environment.resolve scope name) =
      (trail.state.context.value? (scope, name),
        ⟨trail.transcript ++ [.resolve scope name], trail.state⟩) := by
  have hrun := run_resolve_of_isFixed hfixed scope name
  exact congrArg (fun outcome : Option Float32 × Session =>
    (outcome.1, (⟨trail.transcript ++ [.resolve scope name], outcome.2⟩ : Trail Session))) hrun

theorem runFrom_assign (value : Float32) :
    Transcribed.runFrom trail (Environment.assign scope name value) =
      ((), ⟨trail.transcript ++ [.assign scope name value],
        { trail.state with context := trail.state.context.assign scope name value }⟩) := rfl

theorem runFrom_drawSample :
    Transcribed.runFrom trail Environment.drawSample =
      (trail.state.context.random.nextUnit.1,
        trail.afterDraw trail.state.context.random.nextUnit) := rfl

theorem runFrom_reportMiss :
    Transcribed.runFrom trail (Environment.reportMiss scope name) =
      ((), ⟨trail.transcript ++ [.miss scope name],
        { trail.state with log := (trail.state.log.record (scope, name)).2 }⟩) := rfl

/-- A session takes no notice of an overflow, which only the transcript shows. -/
theorem runFrom_reportOverflow :
    Transcribed.runFrom trail Environment.reportOverflow =
      ((), ⟨trail.transcript ++ [.overflow], trail.state⟩) := rfl

end Session

end MotionScript
