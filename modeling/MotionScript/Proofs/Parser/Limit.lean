import MotionScript.Proofs.Parser.Budget
import MotionScript.Proofs.Parser.Congruence
import MotionScript.Proofs.Token.Stream
/-!
# The limit of nesting only cuts off

Two runs under different limits do the same until the tighter limit is passed, and then the run
under it has ended with the error that says so.  No other answer depends on the limit.
-/

namespace MotionScript

namespace Parser

variable {α β : Type} {limit : Nat}

/-- A run has ended because the limit was passed. -/
def Outcome.IsCutOff (limit : Nat) : Outcome α → Prop
  | .failed error _ => error.expected = .nesting limit
  | _ => False

/-- Wherever the first parser gives an answer, the second one gives the same under every wider
limit, unless the first one was cut off. -/
def CutsOff (parser wider : Parser α) : Prop :=
  ∀ ⦃limit limit' : Nat⦄, limit ≤ limit' → ∀ lastOffset state,
    parser ⟨limit, lastOffset⟩ state ≠ .exhausted →
      parser ⟨limit, lastOffset⟩ state = wider ⟨limit', lastOffset⟩ state ∨
        (parser ⟨limit, lastOffset⟩ state).IsCutOff limit

namespace CutsOff

variable {parser wider : Parser α}

theorem of_ignoresLimit (hignores : IgnoresLimit parser) : CutsOff parser parser := by
  intro limit limit' _ lastOffset state _
  rw [hignores limit, hignores limit']
  exact Or.inl rfl

/-- A level that is within the tighter limit is within the wider one. -/
theorem enter : CutsOff enter enter := by
  intro limit limit' hlimit lastOffset state _
  rw [enter_apply, enter_apply]
  dsimp only
  split
  next => exact Or.inr (by rw [fail_apply]; rfl)
  next hdepth =>
    rw [if_neg (by omega)]
    exact Or.inl rfl

/-- Parsers that are cut off by the limit are so one after the other. -/
theorem bind {next nextWider : α → Parser β} (hparser : CutsOff parser wider)
    (hnext : ∀ value, CutsOff (next value) (nextWider value)) :
    CutsOff (parser >>= next) (wider >>= nextWider) := by
  intro limit limit' hlimit lastOffset state hanswers
  have hfirst := hparser hlimit lastOffset state fun hrun => hanswers (bind_of_exhausted next hrun)
  rw [bind_apply] at hanswers
  rw [bind_apply, bind_apply]
  obtain hsame | hcut := hfirst
  · rw [← hsame]
    cases hrun : parser ⟨limit, lastOffset⟩ state with
    | done value between =>
        rw [hrun] at hanswers
        exact hnext value hlimit lastOffset between hanswers
    | failed error between => exact Or.inl rfl
    | exhausted => exact Or.inl rfl
  · cases hrun : parser ⟨limit, lastOffset⟩ state with
    | failed error between => rw [hrun] at hcut; exact Or.inr hcut
    | _ => rw [hrun] at hcut; exact hcut.elim

/-- The end of a level keeps a cut-off parse cut off. -/
theorem leaving (hparser : CutsOff parser wider) :
    CutsOff (leaving parser) (Parser.leaving wider) := by
  intro limit limit' hlimit lastOffset state hanswers
  rw [leaving_apply] at hanswers
  rw [leaving_apply, leaving_apply]
  have hinner : parser ⟨limit, lastOffset⟩ state ≠ .exhausted := by
    intro hrun
    rw [hrun] at hanswers
    exact hanswers rfl
  obtain hsame | hcut := hparser hlimit lastOffset state hinner
  · rw [← hsame]
    exact Or.inl rfl
  · cases hrun : parser ⟨limit, lastOffset⟩ state with
    | failed error last => rw [hrun] at hcut; exact Or.inr hcut
    | _ => rw [hrun] at hcut; exact hcut.elim

end CutsOff

def cutting : Congruence where
  Relates := CutsOff
  exhausted _ _ _ _ _ _ hanswers := absurd rfl hanswers
  ignoring := .of_ignoresLimit
  enter := .enter
  leaving := .leaving
  bind := .bind

theorem program_cutsOff (budget : Nat) : CutsOff (program budget) (program budget) :=
  cutting.program (Nat.le_refl budget)

end Parser

open MotionScript.Parser

/-- Whatever the tokens are, a tighter limit gives the answer of a wider one, the same tree or the
same error, or else the error that the expression is nested too deeply for the tighter limit. -/
theorem Expr.ofTokens_of_limit_le {limit limit' : Nat} (hlimit : limit ≤ limit')
    (tokens : List Token) :
    Expr.ofTokens limit tokens = Expr.ofTokens limit' tokens ∨
      ∃ error, Expr.ofTokens limit tokens = .error error ∧ error.expected = .nesting limit ∧
        error.expected.message = s!"expression nested at most {limit} levels deep" := by
  have hanswers (setup : Setup) :
      program (sufficientBudget tokens) setup ⟨tokens, 0⟩ ≠ .exhausted :=
    program_ne_exhausted (Nat.le_refl _)
  let lastOffset := (tokens.getLast?.map Token.start).getD 0
  have hruns := program_cutsOff (sufficientBudget tokens) hlimit lastOffset ⟨tokens, 0⟩ (hanswers _)
  unfold Expr.ofTokens
  dsimp only
  obtain hsame | hcut := hruns
  · rw [← hsame]
    cases hrun : program (sufficientBudget tokens) ⟨limit, lastOffset⟩ ⟨tokens, 0⟩ with
    | exhausted => exact absurd hrun (hanswers _)
    | _ => exact Or.inl rfl
  · cases hrun : program (sufficientBudget tokens) ⟨limit, lastOffset⟩ ⟨tokens, 0⟩ with
    | failed error state =>
        rw [hrun] at hcut
        have hexpected : error.expected = .nesting limit := hcut
        exact Or.inr ⟨error, rfl, hexpected, by rw [hexpected]; rfl⟩
    | _ => rw [hrun] at hcut; exact hcut.elim

/-- Two pairs of parentheses take three levels: two levels cut the number in them off, and what
three levels read, nine read as well. -/
theorem Expr.ofTokens_of_limit_le_parens :
    ∃ tokens error e, tokenize "((1))" = .ok tokens ∧ 2 ≤ 3 ∧ 3 ≤ 9 ∧
      Expr.ofTokens 2 tokens = .error error ∧
      error.expected.message = "expression nested at most 2 levels deep" ∧
      Expr.ofTokens 3 tokens = .ok e ∧ Expr.ofTokens 9 tokens = .ok e := by
  let tokens : List Token := [⟨.symbol .leftParen, 0, 1⟩, ⟨.symbol .leftParen, 1, 2⟩,
    ⟨.number 1, 2, 3⟩, ⟨.symbol .rightParen, 3, 4⟩, ⟨.symbol .rightParen, 4, 5⟩,
    ⟨.endOfInput, 5, 5⟩]
  have htokens : tokenize "((1))" = .ok tokens := eq_ok_of_toOption (by decide +kernel)
  have htight : 2 ≤ 3 := by decide
  have hwide : 3 ≤ 9 := by decide
  have hrejected : (Expr.ofTokens 2 tokens).toOption.isSome = false := by decide +kernel
  have haccepted : (Expr.ofTokens 3 tokens).toOption.isSome = true := by decide +kernel
  obtain ⟨e, he⟩ := Option.isSome_iff_exists.1 haccepted
  have hread : Expr.ofTokens 3 tokens = .ok e := eq_ok_of_toOption he
  obtain hsame | ⟨error, herror, _, hmessage⟩ := Expr.ofTokens_of_limit_le htight tokens
  · rw [hsame, haccepted] at hrejected
    cases hrejected
  · refine ⟨tokens, error, e, htokens, htight, hwide, herror, hmessage, hread, ?_⟩
    obtain hwider | ⟨_, hcut, _⟩ := Expr.ofTokens_of_limit_le hwide tokens
    · exact hwider.symm.trans hread
    · cases hread.symm.trans hcut

end MotionScript
