import MotionScript.Proofs.Parser.Budget
import MotionScript.Proofs.Parser.Completeness
import MotionScript.Proofs.Token.Stream
/-!
# The parser accepts the language of the grammar

A stream of tokens is accepted exactly where it is a program of the grammar, which then is the tree
that the parser builds; there is no second tree, because the parser would have to build both.
Streams that are no programs end in an error and not in a budget that is used up.
-/

namespace MotionScript

open MotionScript.Parser

namespace Grammar

/-- An operand alone is an expression of every looser production. -/
theorem Ternary.of_unary {e : Expr} {input rest : Input} (hunary : Unary input e rest) :
    Ternary input e rest :=
  have hfactor : Chain .factor input e rest := .operand (.unary hunary)
  have hterm : Chain .term input e rest := .operand (.chain rfl hfactor)
  have hcomparison : Chain .comparison input e rest := .operand (.chain rfl hterm)
  have hequality : Chain .equality input e rest := .operand (.chain rfl hcomparison)
  have hand : Chain .and input e rest := .operand (.chain rfl hequality)
  .chain (.operand (.chain rfl hand))

/-- No input is a program in two ways. -/
theorem Program.unique {input : Input} {e e' : Expr} (hprogram : Program input e)
    (hprogram' : Program input e') : e = e' := by
  have hview : State.view ⟨input.map (⟨·, 0, 0⟩), 0⟩ = ⟨input, 0⟩ := by
    simp [State.view, State.kinds, Function.comp_def]
  have hdepth : input.length < (⟨input.length + 1, 0⟩ : Setup).limit := Nat.lt_succ_self _
  obtain hexhausted | ⟨_, hrun, _⟩ := hprogram.reads hdepth _ _ hview
  · exact absurd hexhausted (program_ne_exhausted (Nat.le_refl _))
  · obtain hexhausted | ⟨_, hrun', _⟩ := hprogram'.reads hdepth _ _ hview
    · exact absurd hexhausted (program_ne_exhausted (Nat.le_refl _))
    · rw [hrun] at hrun'
      exact (Outcome.done.inj hrun').1

end Grammar

/-- Whether a run on an input ends with a program of the grammar, or with an error where there is
none. -/
def Parser.Outcome.Decides (input : Grammar.Input) : Outcome Expr → Prop
  | .done e _ => Grammar.Program input e
  | .failed _ _ => ∀ e, ¬ Grammar.Program input e
  | .exhausted => False

/-- A run decides its input where the nesting may be as deep as the input is long. -/
theorem Parser.program_decides {setup : Setup} {tokens : List Token} {budget : Nat}
    (hstream : Grammar.IsStream (tokens.map Token.kind)) (hlimit : tokens.length < setup.limit)
    (hbudget : sufficientBudget tokens ≤ budget) :
    (program budget setup ⟨tokens, 0⟩).Decides (tokens.map Token.kind) := by
  cases hrun : program budget setup ⟨tokens, 0⟩ with
  | done e state =>
      have hkinds : Grammar.IsStream (State.kinds ⟨tokens, 0⟩) := hstream
      exact program_sound hkinds hrun
  | failed error state =>
      intro e hprogram
      have hdepth : (tokens.map Token.kind).length < setup.limit := by rwa [List.length_map]
      obtain hexhausted | ⟨_, hdone, _⟩ := hprogram.reads hdepth budget ⟨tokens, 0⟩ rfl
      · rw [hrun] at hexhausted
        cases hexhausted
      · rw [hrun] at hdone
        cases hdone
  | exhausted => exact program_ne_exhausted hbudget hrun

/-- The tokens of a source text are accepted exactly where they are a program of the grammar, and
that program is the tree.  Whatever budget the run is given beyond the sufficient one, it ends with
the program, or with an error where the tokens are no program. -/
theorem Expr.ofTokens_accepts_programs {source : String} {tokens : List Token} {limit : Nat}
    (htokens : tokenize source = .ok tokens) (hlimit : tokens.length + 1 ≤ limit) :
    (∀ e, Expr.ofTokens limit tokens = .ok e ↔ Grammar.Program (tokens.map Token.kind) e) ∧
      (∀ e e', Grammar.Program (tokens.map Token.kind) e →
        Grammar.Program (tokens.map Token.kind) e' → e = e') ∧
      (∀ budget lastOffset, sufficientBudget tokens ≤ budget →
        (program budget ⟨limit, lastOffset⟩ ⟨tokens, 0⟩).Decides (tokens.map Token.kind)) := by
  have hstream := tokenize_isStream htokens
  have hdecides (budget lastOffset : Nat) (hbudget : sufficientBudget tokens ≤ budget) :
      (program budget ⟨limit, lastOffset⟩ ⟨tokens, 0⟩).Decides (tokens.map Token.kind) :=
    program_decides hstream hlimit hbudget
  refine ⟨fun e => ?_, fun _ _ hprogram hprogram' => hprogram.unique hprogram', hdecides⟩
  have hrun := hdecides (sufficientBudget tokens) ((tokens.getLast?.map Token.start).getD 0)
    (Nat.le_refl _)
  unfold Expr.ofTokens
  dsimp only
  split
  next found state hfound =>
    rw [hfound] at hrun
    exact ⟨fun hok => Except.ok.inj hok ▸ hrun, fun hprogram => congrArg _ (hrun.unique hprogram)⟩
  next error state hfound =>
    rw [hfound] at hrun
    exact ⟨nofun, fun hprogram => absurd hprogram (hrun e)⟩
  next hfound =>
    rw [hfound] at hrun
    exact hrun.elim

/-- An assignment with another one as its value, a sign that leaves no trace, and a separator before
the end. -/
theorem Expr.ofTokens_accepts_sequence :
    ∃ tokens, tokenize "v.x = t.y += -2; + m.pi," = .ok tokens ∧ tokens.length + 1 ≤ 12 ∧
      Expr.ofTokens 12 tokens = .ok
        (.sequence [.assign .set .variable "x" (.assign .add .temp "y" (.unary .neg (.constant 2))),
          .call .pi []]) := by
  have htokens : tokenize "v.x = t.y += -2; + m.pi," = .ok
      [⟨.path "v.x", 0, 3⟩, ⟨.symbol .assign, 4, 5⟩, ⟨.path "t.y", 6, 9⟩,
        ⟨.symbol .plusAssign, 10, 12⟩, ⟨.symbol .minus, 13, 14⟩, ⟨.number 2, 14, 15⟩,
        ⟨.symbol .semicolon, 15, 16⟩, ⟨.symbol .plus, 17, 18⟩, ⟨.path "m.pi", 19, 23⟩,
        ⟨.symbol .comma, 23, 24⟩, ⟨.endOfInput, 24, 24⟩] :=
    eq_ok_of_toOption (by decide +kernel)
  have hvalue (rest : Grammar.Input) : Grammar.Statement
      (.symbol .minus :: .number 2 :: rest) (.unary .neg (.constant 2)) rest :=
    .ternary (.of_unary (.operator rfl (.primary .number)))
  have hfirst (rest : Grammar.Input) : Grammar.Statement
      (.path "v.x" :: .symbol .assign :: .path "t.y" :: .symbol .plusAssign :: .symbol .minus ::
        .number 2 :: rest)
      (.assign .set .variable "x" (.assign .add .temp "y" (.unary .neg (.constant 2)))) rest :=
    .assign (Or.inr rfl) (Or.inl rfl) rfl (.assign (Or.inr rfl) (Or.inr rfl) rfl (hvalue rest))
  have hsecond (rest : Grammar.Input) : Grammar.Statement
      (.symbol .plus :: .path "m.pi" :: rest) (.call .pi []) rest :=
    .ternary (.of_unary (.plus (.primary (.pi (Or.inr rfl)))))
  have hsemicolon : Symbol.semicolon ∈ [.semicolon, .comma] := by decide
  have hending : Grammar.Ending [.symbol .comma, .endOfInput] := .separated (by decide)
  have hlimit : 11 + 1 ≤ 12 := Nat.le_refl _
  refine ⟨_, htokens, hlimit, ((Expr.ofTokens_accepts_programs htokens hlimit).1 _).2 ?_⟩
  exact .several (.append hsemicolon (.single (hfirst _)) (hsecond _)) (Nat.lt_succ_self 1) hending

end MotionScript
