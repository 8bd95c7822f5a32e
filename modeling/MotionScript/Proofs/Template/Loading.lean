import MotionScript.Curve.Definition
import MotionScript.Proofs.Template.Cache
/-!
# Loading does not depend on the cache

A step of loading that only uses the expressions of templates, and not their serial numbers, ends in
the same way on every cache that calls with the same options can leave.  What it puts into the cache
keeps the cache sound.  So a definition has a curve, or a fault, of its own.
-/

namespace MotionScript

open MotionScript.TemplateCache (Sound)

/-- How a step of loading ends on an empty cache. -/
def loaded {α : Type} (options : ParseOptions) (step : Loading α) : Except LoadError α :=
  (step.run.run (TemplateCache.ofOptions options)).1

/-- A step of loading ends on every sound cache as it does on an empty one, and leaves the cache
sound. -/
def IsStable {α : Type} (options : ParseOptions) (step : Loading α) : Prop :=
  ∀ cache, Sound options cache → (step.run.run cache).1 = loaded options step ∧
    Sound options (step.run.run cache).2

variable {α β : Type} {options : ParseOptions}

theorem sound_ofOptions (options : ParseOptions) : Sound options (.ofOptions options) :=
  .of_clear (.ofOptions options)

/-- It is enough that all sound caches have one outcome. -/
theorem IsStable.of_outcome {step : Loading α} (outcome : Except LoadError α)
    (hstep : ∀ cache, Sound options cache → (step.run.run cache).1 = outcome ∧
      Sound options (step.run.run cache).2) : loaded options step = outcome ∧
        IsStable options step := by
  have hloaded : loaded options step = outcome := (hstep _ (sound_ofOptions options)).1
  rw [IsStable, hloaded]
  exact ⟨rfl, hstep⟩

namespace IsStable

theorem same (value : α) : IsStable options (pure value) :=
  fun _ hsound => ⟨rfl, hsound⟩

theorem fault (error : LoadError) : IsStable options (throw error : Loading α) :=
  fun _ hsound => ⟨rfl, hsound⟩

theorem lift (result : Except LoadError α) : IsStable options (liftM result : Loading α) := by
  intro cache hsound
  cases result <;> exact ⟨rfl, hsound⟩

/-- Loading that is stable in two parts is stable as a whole, and its outcome is that of the parts.
-/
theorem run_bind {step : Loading α} {next : α → Loading β} (hstep : IsStable options step)
    (hnext : ∀ value, IsStable options (next value)) :
    loaded options (step >>= next) =
        (loaded options step).bind (fun value => loaded options (next value)) ∧
      IsStable options (step >>= next) := by
  apply of_outcome
  intro cache hsound
  obtain ⟨houtcome, hleft⟩ := hstep cache hsound
  rw [TemplateCache.run_bind_eq_match, ← houtcome]
  generalize step.run.run cache = run at hleft ⊢
  obtain ⟨outcome, left⟩ := run
  cases outcome with
  | error error => exact ⟨rfl, hleft⟩
  | ok value => exact hnext value left hleft

theorem bind {step : Loading α} {next : α → Loading β} (hstep : IsStable options step)
    (hnext : ∀ value, IsStable options (next value)) : IsStable options (step >>= next) :=
  (run_bind hstep hnext).2

theorem mapM {next : α → Loading β} (hnext : ∀ value, IsStable options (next value))
    (values : List α) : IsStable options (values.mapM next) := by
  induction values with
  | nil => exact same []
  | cons value values ih =>
      rw [List.mapM_cons]
      exact (hnext value).bind fun first => ih.bind fun rest => same (first :: rest)

end IsStable

/-! ### Expressions -/

/-- The expression of a text is the one that it has without a cache. -/
theorem isStable_compile (source : String) :
    IsStable options (do return (← Template.compile source).expr) := by
  refine (IsStable.of_outcome (TemplateCache.exprOf options (source, options.simplify)) ?_).2
  intro cache hsound
  have hstep := TemplateCache.step_answer cache (.compile source)
  have hexpr := hsound.map_expr_of_step hstep rfl
  have hnext := hsound.step hstep
  rw [TemplateCache.Call.answer, TemplateCache.Call.perform, TemplateCache.run_map_some]
    at hexpr hnext
  rw [TemplateCache.run_bind_eq_match]
  generalize (Template.compile source).run.run cache = run at hexpr hnext ⊢
  obtain ⟨outcome, left⟩ := run
  cases outcome with
  | error error =>
      refine ⟨?_, hnext⟩
      cases hkey : TemplateCache.exprOf options (source, options.simplify) with
      | error fault => rw [hkey] at hexpr; exact congrArg _ (Except.error.inj hexpr)
      | ok e => rw [hkey] at hexpr; cases hexpr
  | ok template =>
      refine ⟨?_, hnext⟩
      cases hkey : TemplateCache.exprOf options (source, options.simplify) with
      | error fault => rw [hkey] at hexpr; cases hexpr
      | ok e => rw [hkey] at hexpr; exact congrArg _ (Option.some.inj (Except.ok.inj hexpr))

theorem isStable_constant (value : Float32) :
    IsStable options (do return (← Template.constant value).expr) :=
  fun _ hsound => ⟨rfl, hsound.issued⟩

namespace ExprData

theorem isStable_load (data : ExprData) : IsStable options data.load := by
  cases data with
  | number value => exact isStable_constant value
  | source text => exact isStable_compile text

theorem isStable_loadOr {absent : Loading Expr} (habsent : IsStable options absent)
    (data : Option ExprData) : IsStable options (loadOr absent data) := by
  cases data with
  | none => exact habsent
  | some data => exact data.isStable_load

end ExprData

/-! ### Nodes and curves -/

namespace NodeData

/-- Two sides are loaded from one source, or from one each. -/
theorem isStable_loadSides {noLeft noRight : Loading Expr} (hleft : IsStable options noLeft)
    (hright : IsStable options noRight) (both left right : Option ExprData) :
    IsStable options (loadSides both left right noLeft noRight) := by
  cases both with
  | some data => exact data.isStable_load.bind fun e => .same (e, e)
  | none =>
      exact (ExprData.isStable_loadOr hleft left).bind fun first =>
        (ExprData.isStable_loadOr hright right).bind fun second => .same (first, second)

theorem isStable_loadPlain (key : String) (time : Float32) (data : NodeData) :
    IsStable options (loadPlain key time data) :=
  (ExprData.isStable_loadOr (.fault _) data.value).bind fun _ => .same _

theorem isStable_loadChain (key : String) (time : Float32) (data : NodeData) :
    IsStable options (loadChain key time data) := by
  rw [loadChain]
  cases data.twiceFault? key with
  | some fault => exact .fault _
  | none =>
      apply (isStable_loadSides (.fault _) (.fault _) _ _ _).bind
      intro values
      apply (isStable_loadSides (.same _) (.same _) _ _ _).bind
      intro slopes
      exact .same _

theorem isStable_load (shape : Curve.Shape) (key : String) (data : NodeData) :
    IsStable options (load shape key data) := by
  rw [load]
  cases Single.read? (trim key) with
  | none => exact .fault _
  | some time =>
      dsimp only
      split
      · exact data.isStable_loadChain key time
      · exact data.isStable_loadPlain key time

end NodeData

/-- Nodes are loaded one after the other, whatever is in the cache. -/
theorem NodesData.isStable_load (shape : Curve.Shape) (nodes : NodesData) :
    IsStable options (nodes.load shape) := by
  cases nodes with
  | list values =>
      rw [load]
      split
      · exact .fault _
      · exact (IsStable.mapM (fun value => value.isStable_load) values).bind fun _ => .same _
  | keyed nodes => exact .mapM (fun node => node.2.isStable_load shape node.1) _

/-- A whole curve is loaded the same from every sound cache. -/
theorem CurveData.isStable_load (data : CurveData) : IsStable options data.load := by
  rw [load]
  cases Curve.Shape.ofName? data.shape with
  | none => exact .fault _
  | some shape =>
      have hrest (nodes : List (Curve.Node Expr Float32)) : IsStable options (do
          let input ← ExprData.loadOr (return .zero) data.input
          let range ← ExprData.loadOr (return .one) data.range
          (Curve.ofNodes shape nodes input range).mapError LoadError.construction) :=
        (ExprData.isStable_loadOr (.same _) _).bind fun _ =>
          (ExprData.isStable_loadOr (.same _) _).bind fun _ => .lift _
      dsimp only
      cases data.nodes with
      | none => exact (IsStable.same []).bind hrest
      | some nodes => exact (nodes.isStable_load shape).bind hrest

/-- A definition has the same curve, or the same fault, whatever was compiled before. -/
theorem Curve.isStable_ofJson (options : ParseOptions) (definition : Json) :
    IsStable options (Curve.ofJson definition) := by
  rw [Curve.ofJson]
  cases CurveData.ofJson? definition with
  | none => exact .fault _
  | some data => exact data.isStable_load

end MotionScript
