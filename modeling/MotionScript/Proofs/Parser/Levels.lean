import MotionScript.Proofs.Parser.Completeness
/-!
# From an operand up through the levels

What is read as an operand is read at every level of the grammar, if the token behind it does not go
on with it there.
-/

namespace MotionScript

open MotionScript.Parser

theorem Parser.Level.tightness_pos (tier : Level) : 0 < tier.tightness := by
  cases tier <;> decide

theorem Parser.Level.tightness_le (tier : Level) : tier.tightness ≤ 7 := by
  cases tier <;> decide

theorem Parser.Level.exists_looser {tier : Level} (htier : tier ≠ .or) :
    ∃ loose : Level, loose.tighter = some tier := by
  cases tier with
  | or => exact absurd rfl htier
  | and => exact ⟨.or, rfl⟩
  | equality => exact ⟨.and, rfl⟩
  | comparison => exact ⟨.equality, rfl⟩
  | term => exact ⟨.comparison, rfl⟩
  | factor => exact ⟨.term, rfl⟩

namespace Parser.Reads

variable {setup : Setup} {input rest : List Token.Kind} {depth : Nat} {e : Expr}

/-- A chain may have no operator. -/
theorem chain_of_operand {tier : Level}
    (hoperand : ∀ budget, Reads (operand tier budget) setup ⟨input, depth⟩ e ⟨rest, depth⟩)
    (hfollow : (nextKind rest).tightness < tier.tightness) :
    ∀ budget, Reads (Parser.chain tier budget) setup ⟨input, depth⟩ e ⟨rest, depth⟩ :=
  .chain hoperand (fun _ => .refl) (Level.operator?_of_tightness hfollow)

/-- A prefix expression is an operand of every level if no operator of the level follows. -/
theorem operand_of_unary (tier : Level)
    (hunary : ∀ budget, Reads (unary budget) setup ⟨input, depth⟩ e ⟨rest, depth⟩)
    (hfollow : (nextKind rest).tightness ≤ tier.tightness) (budget : Nat) :
    Reads (operand tier budget) setup ⟨input, depth⟩ e ⟨rest, depth⟩ := by
  cases htighter : tier.tighter with
  | none =>
      cases tier <;> cases htighter
      exact hunary budget
  | some tighter =>
      rw [operand_eq_chain htighter]
      have htightness := Level.tightness_tighter htighter
      have hbound := tighter.tightness_le
      have hoperand := operand_of_unary tighter hunary (by omega)
      exact chain_of_operand hoperand (by omega) budget
termination_by 7 - tier.tightness

theorem chain_of_unary (tier : Level)
    (hunary : ∀ budget, Reads (unary budget) setup ⟨input, depth⟩ e ⟨rest, depth⟩)
    (hfollow : (nextKind rest).tightness < tier.tightness) :
    ∀ budget, Reads (Parser.chain tier budget) setup ⟨input, depth⟩ e ⟨rest, depth⟩ :=
  chain_of_operand (operand_of_unary tier hunary (Nat.le_of_lt hfollow)) hfollow

/-- A chain of any level is an expression if nothing follows that would go on with it. -/
theorem ternary_of_chain (tier : Level)
    (hchain : ∀ budget, Reads (Parser.chain tier budget) setup ⟨input, depth⟩ e ⟨rest, depth⟩)
    (hfollow : (nextKind rest).tightness = 0) :
    ∀ budget, Reads (Parser.ternary budget) setup ⟨input, depth⟩ e ⟨rest, depth⟩ := by
  by_cases hor : tier = .or
  · subst hor
    refine .ternary hchain (fun _ => .refl) fun hquestion => ?_
    rw [hquestion] at hfollow
    cases hfollow
  · obtain ⟨loose, htighter⟩ := Level.exists_looser hor
    have htightness := Level.tightness_tighter htighter
    have hoperand (budget : Nat) :
        Reads (operand loose budget) setup ⟨input, depth⟩ e ⟨rest, depth⟩ := by
      rw [operand_eq_chain htighter]
      exact hchain budget
    have hloose := chain_of_operand hoperand (hfollow ▸ loose.tightness_pos)
    exact ternary_of_chain loose hloose hfollow
termination_by tier.tightness

end Parser.Reads

end MotionScript
