import MotionScript.Proofs.Expr.Readable
/-!
# The shape of templates

A template is a tree that was read from a source text and then simplified and bound any number of
times.  Evaluation and printing rely on its shape without looking at it: sequences stand at the root
only, writable names alone are assigned to, calls have all their arguments, and constants are
finite.
-/

namespace MotionScript.Expr

/-- A step that makes a template of another one. -/
inductive Rewriting where
  | simplify
  | bind (binders : Binders) (values : List Float32)

namespace Rewriting

def apply : Rewriting → Expr → Expr
  | .simplify, e => e.simplify
  | .bind binders values, e => e.bind binders values

def applyAll (rewritings : List Rewriting) (e : Expr) : Expr :=
  rewritings.foldl (fun e rewriting => rewriting.apply e) e

def BindsFinite : Rewriting → Prop
  | .simplify => True
  | .bind binders values => ∀ name binder value, binders.get? name = some binder →
      binder.value? values = some value → value.isFinite = true

end Rewriting

variable {limit : Nat} {source : String} {e : Expr}

theorem eq_value?_of_boundValue? {binders : Binders} {values : List Float32} {written : List Name}
    {name : Name} {value : Float32}
    (hvalue : boundValue? binders values written name = some value) :
    ∃ binder, binders.get? name = some binder ∧ binder.value? values = some value := by
  rw [boundValue?] at hvalue
  split at hvalue
  · cases hvalue
  · exact Option.bind_eq_some_iff.1 hvalue

/-! ### One step -/

theorem WellFormed.rewriting (hwellFormed : WellFormed e) (rewriting : Rewriting) :
    WellFormed (rewriting.apply e) := by
  cases rewriting with
  | simplify => exact hwellFormed.simplify
  | bind binders values => exact hwellFormed.substitute _

/-- A simplification keeps finite constants, and so does a bind to finite values. -/
theorem finite_rewriting {rewriting : Rewriting} (hbinds : rewriting.BindsFinite)
    (hfinite : ∀ value ∈ e.constants, value.isFinite = true) :
    ∀ value ∈ (rewriting.apply e).constants, value.isFinite = true := by
  cases rewriting with
  | simplify => exact finite_simplify hfinite
  | bind binders values =>
      refine forall_mem_constants_substitute hfinite fun name value hvalue => ?_
      obtain ⟨binder, hbinder, hvalue⟩ := eq_value?_of_boundValue? hvalue
      exact hbinds name binder value hbinder hvalue

/-! ### Any number of steps -/

theorem WellFormed.rewritten (hwellFormed : WellFormed e) (rewritings : List Rewriting) :
    WellFormed (Rewriting.applyAll rewritings e) := by
  induction rewritings generalizing e with
  | nil => exact hwellFormed
  | cons rewriting rewritings ih => exact ih (hwellFormed.rewriting rewriting)

theorem finite_rewritten {rewritings : List Rewriting}
    (hbinds : ∀ rewriting ∈ rewritings, rewriting.BindsFinite)
    (hfinite : ∀ value ∈ e.constants, value.isFinite = true) :
    ∀ value ∈ (Rewriting.applyAll rewritings e).constants, value.isFinite = true := by
  induction rewritings generalizing e with
  | nil => exact hfinite
  | cons rewriting rewritings ih =>
      rw [List.forall_mem_cons] at hbinds
      exact ih hbinds.2 (finite_rewriting hbinds.1 hfinite)

/-- The constants of a source text have no sign, as a sign is an operator. -/
theorem isNegative_of_parseWithin (hparse : parseWithin limit source = .ok e) :
    ∀ value ∈ e.constants, Single.isNegative value = false := by
  obtain ⟨tokens, lastOffset, _, htokens, hrun⟩ := Parser.exists_run_of_parseWithin hparse
  have hstream : Grammar.IsStream (Parser.State.kinds ⟨tokens, 0⟩) := tokenize_isStream htokens
  exact (Parser.program_sound hstream hrun).constants fun value hmem =>
    tokenize_isNegative htokens hmem

/-- However often the tree of a source text is simplified and bound, it stays well formed, and its
constants stay finite as long as names are bound to finite values.  Before any step its constants
are finite and not negative. -/
theorem wellFormed_rewritten_of_parseWithin (hparse : parseWithin limit source = .ok e)
    (rewritings : List Rewriting) :
    WellFormed (Rewriting.applyAll rewritings e) ∧
      ((∀ rewriting ∈ rewritings, rewriting.BindsFinite) →
        ∀ value ∈ (Rewriting.applyAll rewritings e).constants, value.isFinite = true) ∧
      ∀ value ∈ e.constants, value.isFinite = true ∧ Single.isNegative value = false := by
  have hreadable := readableProgram_of_parseWithin hparse
  have hunsigned := isNegative_of_parseWithin hparse
  refine ⟨hreadable.wellFormed.rewritten rewritings, ?_, fun value hmem => ?_⟩
  · exact fun hbinds => finite_rewritten hbinds hreadable.finite
  · exact ⟨hreadable.finite value hmem, hunsigned value hmem⟩

/-- The name that is written keeps its references although it has a binder, and the argument that
takes the place of the condition selects the call. -/
theorem wellFormed_rewritten_of_parseWithin_branch :
    let source := "temp.a = context.b ? math.max(query.c, 2) : -1; temp.a * 3"
    let bind : Rewriting :=
      .bind ⟨[((.context, "b"), .argument 0), ((.temp, "a"), .constant 5)]⟩ [1]
    ∃ e, parseWithin 8 source = .ok e ∧ bind.BindsFinite ∧
      WellFormed (Rewriting.applyAll [.simplify, bind, .simplify] e) ∧
      (∀ value ∈ (Rewriting.applyAll [.simplify, bind, .simplify] e).constants,
        value.isFinite = true) ∧
      ∀ value ∈ e.constants, value.isFinite = true ∧ Single.isNegative value = false := by
  intro source bind
  have haccepted : (parseWithin 8 source).toOption.isSome = true := by decide +kernel
  obtain ⟨e, hparse⟩ := Option.isSome_iff_exists.1 haccepted
  have hparse := eq_ok_of_toOption hparse
  have hbind : bind.BindsFinite := by
    intro name binder value hbinder hvalue
    simp only [Table.get?, Table.find?] at hbinder
    split at hbinder
    · cases hbinder
      cases hvalue
      decide +kernel
    · split at hbinder <;> cases hbinder
      cases hvalue
      decide +kernel
  obtain ⟨hwellFormed, hfinite, hread⟩ :=
    wellFormed_rewritten_of_parseWithin hparse [.simplify, bind, .simplify]
  have hbinds : ∀ rewriting ∈ [.simplify, bind, .simplify], rewriting.BindsFinite := by
    simp only [List.forall_mem_cons, List.not_mem_nil, false_implies, implies_true, and_true]
    exact ⟨trivial, hbind, trivial⟩
  exact ⟨e, hparse, hbind, hwellFormed, hfinite hbinds, hread⟩

end MotionScript.Expr
