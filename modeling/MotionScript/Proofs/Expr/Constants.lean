import MotionScript.Expr.Bind
import MotionScript.Proofs.Expr.WellFormed
import MotionScript.Proofs.Parser.Extent
/-!
# The constants of an expression

The constants of a source text are the numbers among its tokens.  Simplification adds finite
constants only, and binding adds the values that it puts in place of names.
-/

namespace MotionScript

namespace Expr

variable {property : Float32 → Prop}

theorem forall_mem_allConstants {es : List Expr} :
    (∀ value ∈ allConstants es, property value) ↔
      ∀ e ∈ es, ∀ value ∈ e.constants, property value := by
  rw [allConstants_eq_flatMap]
  simp only [List.mem_flatMap]
  exact ⟨fun hall e hmem value hvalue => hall value ⟨e, hmem, hvalue⟩,
    fun hall value ⟨e, hmem, hvalue⟩ => hall e hmem value hvalue⟩

/-! ### Simplification -/

section Simplify

variable {e : Expr}

/-- Folding to a value keeps finite constants, since it gives up where the value is not finite. -/
theorem finite_foldTo {value : Float32} {otherwise : Expr}
    (hotherwise : ∀ value ∈ otherwise.constants, value.isFinite = true) :
    ∀ found ∈ (foldTo value otherwise).constants, found.isFinite = true := by
  rw [foldTo]
  split
  next hfinite => exact List.forall_mem_singleton.2 hfinite
  next => exact hotherwise

theorem finite_foldSequence {es : List Expr}
    (hes : ∀ e ∈ es, ∀ value ∈ e.constants, value.isFinite = true) :
    ∀ value ∈ (foldSequence es).constants, value.isFinite = true := by
  simp only [foldSequence]
  split
  · exact hes _ (List.mem_singleton_self _)
  · exact forall_mem_allConstants.2 hes

/-- If every constant is finite, then every constant is after simplification. -/
theorem finite_simplify (hfinite : ∀ value ∈ e.constants, value.isFinite = true) :
    ∀ value ∈ e.simplify.constants, value.isFinite = true := by
  induction e with
  | constant value => exact hfinite
  | reference scope name => exact hfinite
  | unary operator operand ih =>
      rw [simplify, foldUnary]
      split
      · exact finite_foldTo (ih hfinite)
      · exact ih hfinite
  | binary operator left right ihLeft ihRight =>
      rw [constants, List.forall_mem_append] at hfinite
      have hoperands := List.forall_mem_append.2 ⟨ihLeft hfinite.1, ihRight hfinite.2⟩
      rw [simplify, foldBinary]
      split
      · exact finite_foldTo hoperands
      · exact hoperands
  | conditional condition whenTrue whenFalse ihCondition ihTrue ihFalse =>
      rw [constants, List.forall_mem_append, List.forall_mem_append] at hfinite
      obtain ⟨⟨hcondition, hwhenTrue⟩, hwhenFalse⟩ := hfinite
      rw [simplify, foldConditional]
      split
      · split
        · exact ihTrue hwhenTrue
        · exact ihFalse hwhenFalse
      · rw [constants, List.forall_mem_append, List.forall_mem_append]
        exact ⟨⟨ihCondition hcondition, ihTrue hwhenTrue⟩, ihFalse hwhenFalse⟩
  | assign operator scope name value ih => exact ih hfinite
  | sequence statements ih =>
      rw [constants, forall_mem_allConstants] at hfinite
      rw [simplify, simplifyAll_eq_map]
      apply finite_foldSequence
      rw [List.forall_mem_map]
      exact fun e hmem => ih e hmem (hfinite e hmem)
  | call function arguments ih =>
      rw [constants, forall_mem_allConstants] at hfinite
      have hcall : ∀ value ∈ (call function (arguments.map simplify)).constants,
          value.isFinite = true := by
        rw [constants, forall_mem_allConstants, List.forall_mem_map]
        exact fun e hmem => ih e hmem (hfinite e hmem)
      rw [simplify, simplifyAll_eq_map, foldCall]
      split
      · exact hcall
      · split
        · exact finite_foldTo hcall
        · exact hcall

end Simplify

/-! ### Binding -/

/-- The constants of a bound expression are its own and the values that were put in place of names.
-/
theorem forall_mem_constants_substitute {value? : Name → Option Float32} {e : Expr}
    (hconstants : ∀ value ∈ e.constants, property value)
    (hvalues : ∀ name value, value? name = some value → property value) :
    ∀ value ∈ (e.substitute value?).constants, property value := by
  induction e with
  | constant value => exact hconstants
  | reference scope name =>
      rw [substitute]
      split
      next value hvalue => exact List.forall_mem_singleton.2 (hvalues _ value hvalue)
      next => exact nofun
  | unary operator operand ih => exact ih hconstants
  | binary operator left right ihLeft ihRight =>
      rw [constants, List.forall_mem_append] at hconstants
      rw [substitute, constants, List.forall_mem_append]
      exact ⟨ihLeft hconstants.1, ihRight hconstants.2⟩
  | conditional condition whenTrue whenFalse ihCondition ihTrue ihFalse =>
      rw [constants, List.forall_mem_append, List.forall_mem_append] at hconstants
      rw [substitute, constants, List.forall_mem_append, List.forall_mem_append]
      exact ⟨⟨ihCondition hconstants.1.1, ihTrue hconstants.1.2⟩, ihFalse hconstants.2⟩
  | assign operator scope name value ih => exact ih hconstants
  | sequence statements ih =>
      rw [constants, forall_mem_allConstants] at hconstants
      rw [substitute, substituteAll_eq_map, constants, forall_mem_allConstants, List.forall_mem_map]
      exact fun e hmem => ih e hmem (hconstants e hmem)
  | call function arguments ih =>
      rw [constants, forall_mem_allConstants] at hconstants
      rw [substitute, substituteAll_eq_map, constants, forall_mem_allConstants, List.forall_mem_map]
      exact fun e hmem => ih e hmem (hconstants e hmem)

end Expr

/-! ### What the grammar spells -/

namespace Grammar

open MotionScript.Expr

variable {input between rest : Input}

/-- Every number in the input has the property. -/
def Numbers (property : Float32 → Prop) (input : Input) : Prop :=
  ∀ value, .number value ∈ input → property value

namespace Numbers

variable {property : Float32 → Prop}

theorem tail {kind : Token.Kind} (hnumbers : Numbers property (kind :: input)) :
    Numbers property input :=
  fun value hmem => hnumbers value (List.mem_cons_of_mem kind hmem)

theorem behind {kind : Token.Kind} (hnumbers : Numbers property input)
    (hspans : Spans input (kind :: between)) : Numbers property between :=
  fun value hmem => hnumbers value (hspans.isSuffix.subset (List.mem_cons_of_mem kind hmem))

end Numbers

/-! A derivation makes constants of nothing but numbers, so what holds of the numbers of an input
holds of the constants of the tree. -/

mutual

theorem Statement.constants {property : Float32 → Prop} {e : Expr} {input rest : Input} :
    Statement input e rest → Numbers property input → ∀ value ∈ e.constants, property value
  | .assign _ _ _ hvalue, hnumbers => hvalue.constants hnumbers.tail.tail
  | .ternary hternary, hnumbers => hternary.constants hnumbers

theorem Ternary.constants {property : Float32 → Prop} {e : Expr} {input rest : Input} :
    Ternary input e rest → Numbers property input → ∀ value ∈ e.constants, property value
  | .chain hchain, hnumbers => hchain.constants hnumbers
  | .conditional hcondition hwhenTrue hwhenFalse, hnumbers =>
    have hfirst := hnumbers.behind hcondition.spans.spans
    have hsecond := hfirst.behind hwhenTrue.spans.spans
    List.forall_mem_append.2 ⟨List.forall_mem_append.2 ⟨hcondition.constants hnumbers,
      hwhenTrue.constants hfirst⟩, hwhenFalse.constants hsecond⟩

theorem Chain.constants {property : Float32 → Prop} {level : Parser.Level} {e : Expr}
    {input rest : Input} :
    Chain level input e rest → Numbers property input → ∀ value ∈ e.constants, property value
  | .operand hoperand, hnumbers => hoperand.constants hnumbers
  | .binary _ _ hleft hright, hnumbers =>
    List.forall_mem_append.2 ⟨hleft.constants hnumbers,
      hright.constants (hnumbers.behind hleft.spans.spans)⟩

theorem Operand.constants {property : Float32 → Prop} {level : Parser.Level} {e : Expr}
    {input rest : Input} :
    Operand level input e rest → Numbers property input → ∀ value ∈ e.constants, property value
  | .chain _ hchain, hnumbers => hchain.constants hnumbers
  | .unary hunary, hnumbers => hunary.constants hnumbers

theorem Unary.constants {property : Float32 → Prop} {e : Expr} {input rest : Input} :
    Unary input e rest → Numbers property input → ∀ value ∈ e.constants, property value
  | .operator _ hoperand, hnumbers => hoperand.constants hnumbers.tail
  | .plus hunary, hnumbers => hunary.constants hnumbers.tail
  | .primary hprimary, hnumbers => hprimary.constants hnumbers

theorem Primary.constants {property : Float32 → Prop} {e : Expr} {input rest : Input} :
    Primary input e rest → Numbers property input → ∀ value ∈ e.constants, property value
  | .number, hnumbers => List.forall_mem_singleton.2 (hnumbers _ List.mem_cons_self)
  | .parentheses hstatement, hnumbers => hstatement.constants hnumbers.tail
  | .call _ _ harguments, hnumbers =>
    forall_mem_allConstants.2 (harguments.constants hnumbers.tail.tail)
  | .emptyCall _ _, _ => nofun
  | .pi _, _ => nofun
  | .reference _, _ => nofun
  | .emptyParens _, _ => nofun

theorem Statements.constants {property : Float32 → Prop} {separators : List Symbol}
    {es : List Expr} {input rest : Input} :
    Statements separators input es rest → Numbers property input →
      ∀ e ∈ es, ∀ value ∈ e.constants, property value
  | .single hstatement, hnumbers => List.forall_mem_singleton.2 (hstatement.constants hnumbers)
  | .append _ hstatements hstatement, hnumbers =>
    List.forall_mem_append.2 ⟨hstatements.constants hnumbers,
      List.forall_mem_singleton.2
        (hstatement.constants (hnumbers.behind hstatements.spans))⟩

end

/-- What holds of all numbers in a text holds of all constants in its tree. -/
theorem Program.constants {property : Float32 → Prop} {e : Expr} (hprogram : Program input e)
    (hnumbers : Numbers property input) : ∀ value ∈ e.constants, property value := by
  cases hprogram with
  | single hstatement _ => exact hstatement.constants hnumbers
  | several hstatements _ _ =>
      rw [Expr.constants, forall_mem_allConstants]
      exact hstatements.constants hnumbers

end Grammar

end MotionScript
