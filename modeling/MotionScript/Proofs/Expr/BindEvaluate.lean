import MotionScript.Proofs.Context.View
import MotionScript.Proofs.Environment.Simulation
/-!
# Binding is partial evaluation

A bound expression runs as the expression itself would run in a context that gives the bound names
their values.  Names that the expression writes are not bound, so the two runs keep the same values
for them, and the bound names, which the expression never writes, keep theirs.
-/

namespace MotionScript

open MotionScript.Expr (Name)

/-- A name has a binder with a value, and the expression does not write it. -/
def Expr.Binds (binders : Binders) (values : List Float32) (e : Expr) (name : Name)
    (value : Float32) : Prop :=
  name ∉ e.writes ∧
    (binders.get? name = some (.constant value) ∨
      ∃ index, binders.get? name = some (.argument index) ∧ values[index]? = some value)

/-- A tree binds a name to a value if the name has a value that the tree does not write. -/
theorem Expr.binds_iff {binders : Binders} {values : List Float32} {e : Expr} {name : Name}
    {value : Float32} :
    e.Binds binders values name value ↔
      Expr.boundValue? binders values e.writes name = some value := by
  unfold Expr.Binds Expr.boundValue?
  by_cases hwritten : name ∈ e.writes
  · simp [hwritten]
  · cases hbinder : binders.get? name with
    | none => simp [hwritten]
    | some binder => cases binder <;> simp [hwritten, Binder.value?]

/-- The context in which every name that a binder has a value for is preset to this value, except
for the names that an expression writes. -/
def Context.presetBound (binders : Binders) (values : List Float32) (e : Expr)
    (context : Context) : Context :=
  binders.keys.foldl (fun context name =>
    if e.writes.contains name then context
    else
      match binders.get? name with
      | some (.constant value) => context.preset name value
      | some (.argument index) =>
        match values[index]? with
        | some value => context.preset name value
        | none => context
      | none => context) context

namespace Context

/-- The context in which the names with a value are preset to it. -/
def overlay (value? : Name → Option Float32) (names : List Name) (context : Context) : Context :=
  names.foldl (fun context name =>
    match value? name with
    | some value => context.preset name value
    | none => context) context

/-- Presetting what a tree binds is an overlay of the bound values. -/
theorem presetBound_eq_overlay (binders : Binders) (values : List Float32) (e : Expr)
    (context : Context) :
    context.presetBound binders values e =
      context.overlay (Expr.boundValue? binders values e.writes) binders.keys := by
  unfold presetBound overlay
  congr
  funext context name
  simp only [Expr.boundValue?, List.contains_iff_mem]
  split
  · rfl
  · cases hbinder : binders.get? name with
    | none => rfl
    | some binder => cases binder <;> rfl

/-- An overlay leaves the random numbers alone. -/
theorem random_overlay (value? : Name → Option Float32) (names : List Name) (context : Context) :
    (context.overlay value? names).random = context.random := by
  rw [overlay]
  induction names generalizing context with
  | nil => rfl
  | cons name names ih =>
      rw [List.foldl_cons, ih]
      split
      · rw [random_preset]
      · rfl

/-- Under an overlay, the listed names that have a value give it, and all others are as before. -/
theorem provider?_overlay (value? : Name → Option Float32) (names : List Name)
    (context : Context) (name : Name) :
    (context.overlay value? names).provider? name =
      if name ∈ names then ((value? name).map .fixed).or (context.provider? name)
      else context.provider? name := by
  rw [overlay]
  induction names generalizing context with
  | nil => simp
  | cons head names ih =>
      rw [List.foldl_cons, ih]
      by_cases hname : head = name
      · subst hname
        cases hvalue : value? head <;> simp [provider?_preset]
      · cases hvalue : value? head <;> simp [provider?_preset, hname, Ne.symm hname]

end Context

/-! ### The two runs -/

/-- Two trails with the same effects and the same state, but for names that are preset on the
right. -/
structure Overlaid (value? : Name → Option Float32) (left right : Trail Session) : Prop where
  effects : MotionScript.effects left.transcript = MotionScript.effects right.transcript
  log : left.state.log = right.state.log
  host : left.state.host = right.state.host
  random : left.state.context.random = right.state.context.random
  provider : ∀ name, right.state.context.provider? name =
    ((value? name).map .fixed).or (left.state.context.provider? name)

namespace Overlaid

open Simulation

variable {value? : Name → Option Float32}

/-- A read gives the preset value on the right, where the name has been bound on the left. -/
theorem agreesOnRead (name : Name) :
    (ofTrails (Overlaid value?)).AgreesOnRead value? name := by
  intro left right hoverlaid
  obtain ⟨heffects, hlog, hhost, hrandom, hprovider⟩ := hoverlaid
  have hright := hprovider name
  cases hvalue : value? name with
  | some value =>
      rw [hvalue, Option.map_some, Option.some_or] at hright
      rw [Session.runFrom_resolve_of_some right name.1 name.2 hright]
      simp only [resolveBound, hvalue, Transcribed.runFrom_pure]
      exact ⟨rfl, by rw [effects_append_resolve, heffects], hlog, hhost, hrandom, hprovider⟩
  | none =>
      rw [hvalue, Option.map_none, Option.none_or] at hright
      simp only [resolveBound, hvalue]
      cases hleft : left.state.context.provider? name with
      | some provider =>
          rw [hleft] at hright
          rw [Session.runFrom_resolve_of_some left name.1 name.2 hleft,
            Session.runFrom_resolve_of_some right name.1 name.2 hright, hhost]
          exact ⟨rfl, by simp only [effects_append_resolve, heffects], hlog, rfl, hrandom,
            hprovider⟩
      | none =>
          rw [hleft] at hright
          rw [Session.runFrom_resolve_of_none left name.1 name.2 hleft,
            Session.runFrom_resolve_of_none right name.1 name.2 hright]
          exact ⟨rfl, by simp only [effects_append_resolve, heffects], hlog, hhost, hrandom,
            hprovider⟩

/-- A write to a name that is not preset goes the same way on both sides. -/
theorem agreesOnWrite {name : Name} (hfree : value? name = none) :
    (ofTrails (Overlaid value?)).AgreesOnWrite value? name := by
  refine ⟨hfree, fun value left right hoverlaid => ⟨rfl, ?_⟩⟩
  obtain ⟨heffects, hlog, hhost, hrandom, hprovider⟩ := hoverlaid
  rw [Session.runFrom_assign, Session.runFrom_assign]
  refine ⟨by simp only [effects_append, heffects], hlog, hhost, ?_, fun other => ?_⟩
  · simp only [Context.random_assign, hrandom]
  · simp only [Context.provider?_assign, hprovider other]
    split
    next hname => rw [← hname.2, hfree]; rfl
    next => rfl

theorem relates_drawSample :
    (ofTrails (Overlaid value?)).Relates Environment.drawSample Environment.drawSample := by
  intro left right hoverlaid
  obtain ⟨heffects, hlog, hhost, hrandom, hprovider⟩ := hoverlaid
  rw [Session.runFrom_drawSample, Session.runFrom_drawSample]
  refine Random.nextUnit_related hrandom left.afterDraw right.afterDraw fun drawn => ?_
  refine ⟨by simp only [Trail.afterDraw, effects_append, heffects], hlog, hhost, rfl, ?_⟩
  simp only [Trail.afterDraw, Context.provider?_withRandom, hprovider, implies_true]

theorem relates_reportMiss (scope : Scope) (name : String) :
    (ofTrails (Overlaid value?)).Relates (Environment.reportMiss scope name)
      (Environment.reportMiss scope name) := by
  intro left right hoverlaid
  obtain ⟨heffects, hlog, hhost, hrandom, hprovider⟩ := hoverlaid
  rw [Session.runFrom_reportMiss, Session.runFrom_reportMiss, hlog]
  exact ⟨rfl, by simp only [effects_append, heffects], rfl, hhost, hrandom, hprovider⟩

theorem relates_reportOverflow :
    (ofTrails (Overlaid value?)).Relates Environment.reportOverflow
      Environment.reportOverflow := by
  intro left right hoverlaid
  obtain ⟨heffects, hlog, hhost, hrandom, hprovider⟩ := hoverlaid
  rw [Session.runFrom_reportOverflow, Session.runFrom_reportOverflow]
  exact ⟨rfl, by simp only [effects_append, heffects], hlog, hhost, hrandom, hprovider⟩

/-- Binding names that the expression does not write keeps the trails of the two runs overlaid. -/
theorem runFrom_substitute {e : Expr} (hfree : ∀ name ∈ e.writes, value? name = none)
    {left right : Trail Session} (hoverlaid : Overlaid value? left right) :
    (Transcribed.runFrom left (e.substitute value?).evaluate).1 =
        (Transcribed.runFrom right e.evaluate).1 ∧
      Overlaid value? (Transcribed.runFrom left (e.substitute value?).evaluate).2
        (Transcribed.runFrom right e.evaluate).2 :=
  relates_evaluate relates_reportMiss relates_reportOverflow (fun _ => relates_drawSample)
    (fun name _ => agreesOnRead name)
    (fun name hname => agreesOnWrite (hfree name hname)) left right hoverlaid

end Overlaid

/-! ### Bound expressions -/

theorem Expr.boundValue?_of_mem {binders : Binders} {values : List Float32} {written : List Name}
    {name : Name} (hname : name ∈ written) :
    Expr.boundValue? binders values written name = none :=
  if_pos hname

theorem Expr.mem_keys_of_boundValue? {binders : Binders} {values : List Float32}
    {written : List Name} {name : Name} {value : Float32}
    (hvalue : Expr.boundValue? binders values written name = some value) :
    name ∈ binders.keys := by
  apply Decidable.byContradiction
  intro hname
  rw [← Table.get?_eq_none_iff] at hname
  simp [Expr.boundValue?, hname] at hvalue

/-- A context in which the bound names are preset reads each of them as its value. -/
theorem Context.provider?_presetBound (binders : Binders) (values : List Float32) (e : Expr)
    (context : Context) (name : Name) :
    (context.presetBound binders values e).provider? name =
      ((Expr.boundValue? binders values e.writes name).map .fixed).or
        (context.provider? name) := by
  rw [presetBound_eq_overlay, provider?_overlay]
  split
  · rfl
  next hname =>
    cases hvalue : Expr.boundValue? binders values e.writes name with
    | some value => exact absurd (Expr.mem_keys_of_boundValue? hvalue) hname
    | none => rfl

/-- A bound expression has the value that the expression has in the context with the bound names
preset.  The assignments, samples and missed names of the two runs are the same in the same order,
and the contexts that they leave differ at most at the bound names. -/
theorem evaluate_bind (binders : Binders) (values : List Float32) (e : Expr)
    (session : Session) :
    let bound := Transcribed.runFrom ⟨[], session⟩ (e.bind binders values).evaluate
    let original := Transcribed.runFrom
      ⟨[], { session with context := session.context.presetBound binders values e }⟩ e.evaluate
    bound.1 = original.1 ∧
      effects bound.2.transcript = effects original.2.transcript ∧
      bound.2.state.log = original.2.state.log ∧
      bound.2.state.host = original.2.state.host ∧
      bound.2.state.context.random = original.2.state.context.random ∧
      ∀ name, (∀ value, ¬ e.Binds binders values name value) →
        bound.2.state.context.provider? name = original.2.state.context.provider? name := by
  intro bound original
  have hoverlaid : Overlaid (Expr.boundValue? binders values e.writes) ⟨[], session⟩
      ⟨[], { session with context := session.context.presetBound binders values e }⟩ := by
    refine ⟨rfl, rfl, rfl, ?_, Context.provider?_presetBound binders values e session.context⟩
    exact (Context.presetBound_eq_overlay binders values e session.context ▸
      Context.random_overlay _ _ _).symm
  obtain ⟨hvalue, heffects, hlog, hhost, hrandom, hprovider⟩ :=
    Overlaid.runFrom_substitute (fun _ => Expr.boundValue?_of_mem) hoverlaid
  refine ⟨hvalue, heffects, hlog, hhost, hrandom, fun name hunbound => ?_⟩
  have hnone : Expr.boundValue? binders values e.writes name = none := by
    rw [Option.eq_none_iff_forall_ne_some]
    exact fun value hvalue => hunbound value (Expr.binds_iff.2 hvalue)
  have hname := hprovider name
  rw [hnone, Option.map_none, Option.none_or] at hname
  exact hname.symm

end MotionScript
