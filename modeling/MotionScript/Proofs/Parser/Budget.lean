import MotionScript.Proofs.Parser.Ranking
/-!
# The budget is never used up

Twenty calls for every token that is left, and fewer than twenty before the next one is passed, are
enough: what is called on the same tokens comes later in the grammar, and what is called on fewer
tokens may be any function.
-/

namespace MotionScript.Parser

variable {budget : Nat} {setup : Setup} {state : State}

/-- The calls between the fold of a level and the next token.  The chain of the level is one call
before its fold. -/
def Level.rank : Level → Nat
  | .or => 12
  | .and => 10
  | .equality => 8
  | .comparison => 6
  | .term => 4
  | .factor => 2

theorem Level.rank_tighter {level tighter : Level} (htighter : level.tighter = some tighter) :
    level.rank = tighter.rank + 2 := by
  cases level <;> cases htighter <;> rfl

theorem length_advanced {kind : Token.Kind} (hnext : nextKind state.kinds = kind)
    (hkind : kind ≠ .endOfInput) : state.kinds.length = state.advanced.kinds.length + 1 := by
  rw [kinds_eq_cons hnext hkind, List.length_cons]

/-- The ranks of the calls on the tokens that are left. -/
def tokenRanking (setup : Setup) : Ranking setup where
  statement state := 20 * state.kinds.length + 16
  assignment state := 20 * state.kinds.length + 15
  ternary state := 20 * state.kinds.length + 14
  chain level state := 20 * state.kinds.length + level.rank + 1
  fold level state := 20 * state.kinds.length + level.rank
  unary state := 20 * state.kinds.length + 1
  primary state := 20 * state.kinds.length
  named state := 20 * state.kinds.length + 18
  arguments state := 20 * state.kinds.length + 17
  statement_assignment _ := by
    rw [kinds_entered]
    omega
  assignment_ternary := by omega
  assignment_value hpath := by
    have hlength := length_advanced hpath path_ne_end
    simp only [kinds_advanced, List.length_tail] at hlength ⊢
    omega
  ternary_chain hlater := by
    have hlength := hlater.suffix.length_le
    simp only [Level.rank]
    omega
  chain_fold := by omega
  fold_tighter htighter hlater := by
    have hlength := hlater.suffix.length_le
    rw [Level.rank_tighter htighter]
    omega
  fold_unary hlater := by
    have hlength := hlater.suffix.length_le
    simp only [Level.rank]
    omega
  unary_sign _ hnext := by
    have hlength := length_advanced hnext symbol_ne_end
    rw [kinds_entered]
    omega
  unary_plus hnext := by
    have hlength := length_advanced hnext symbol_ne_end
    omega
  unary_primary := by omega
  primary_statement hnext := by
    have hlength := length_advanced hnext symbol_ne_end
    omega
  primary_named hpath := by
    have hlength := length_advanced hpath path_ne_end
    omega
  named_arguments hopen := by
    have hlength := length_advanced hopen symbol_ne_end
    omega
  arguments_statement hlater := by
    have hlength := hlater.suffix.length_le
    omega

/-- A program is read to its end or to an error. -/
theorem program_ne_exhausted (hbudget : sufficientBudget state.tokens ≤ budget) :
    program budget setup state ≠ .exhausted := by
  apply (tokenRanking setup).program_ne_exhausted
  intro later hlater
  have hlength : state.kinds.length = state.tokens.length := List.length_map _
  have hshorter := hlater.suffix.length_le
  rw [sufficientBudget, ← hlength] at hbudget
  simp only [tokenRanking]
  omega

end MotionScript.Parser
