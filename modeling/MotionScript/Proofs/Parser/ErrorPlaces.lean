import MotionScript.Proofs.Parser.Budget
import MotionScript.Proofs.Parser.Monotone
import MotionScript.Proofs.Parser.Places
import MotionScript.Proofs.Token.Spans
/-!
# Where parse errors point

An error is about the next token, about the last one where all are read, or about a path that is
already passed.  A stream beside itself, with its own places as the only ones that belong together,
shows that there are no other places: every error is at the start of a token of the stream.  If the
stream is that of a text, such a place is in the text and a character may start there.
-/

namespace MotionScript

namespace Parser

/-- The start of a token of the stream, or zero if the stream has none. -/
def IsPlaceOf (tokens : List Token) (place : Nat) : Prop :=
  (∃ token ∈ tokens, place = token.start) ∨ tokens = [] ∧ place = 0

/-- The place that stands for the end of a stream is the place of its last token. -/
theorem isPlaceOf_lastOffset (tokens : List Token) : IsPlaceOf tokens (lastOffset tokens) := by
  cases hlast : tokens.getLast? with
  | none =>
      refine Or.inr ⟨List.getLast?_eq_none_iff.1 hlast, ?_⟩
      rw [lastOffset, hlast]
      rfl
  | some token =>
      refine Or.inl ⟨token, List.mem_of_getLast? hlast, ?_⟩
      rw [lastOffset, hlast]
      rfl

/-- Beside itself a stream has errors at its own places only. -/
theorem isPlaceOf_of_ofTokens {limit : Nat} {tokens : List Token} {error : ParseError}
    (hparse : Expr.ofTokens limit tokens = .error error) : IsPlaceOf tokens error.offset := by
  have htokens : List.Forall₂ (SameToken fun place _ => IsPlaceOf tokens place) tokens tokens :=
    List.forall₂_same.2 fun token hmem => ⟨rfl, Or.inl ⟨token, hmem, rfl⟩⟩
  have hsame := ofTokens_alike limit htokens (isPlaceOf_lastOffset tokens)
  rw [hparse] at hsame
  cases hsame with
  | error found expected hoffset => exact hoffset

/-- A stream is read to an answer, which is the same on every budget that suffices. -/
theorem ofTokens_answers (limit : Nat) (tokens : List Token) :
    match Expr.ofTokens limit tokens with
    | .ok e => ∃ state, ∀ budget, sufficientBudget tokens ≤ budget →
        program budget ⟨limit, lastOffset tokens⟩ ⟨tokens, 0⟩ = .done e state
    | .error error => ∃ state, ∀ budget, sufficientBudget tokens ≤ budget →
        program budget ⟨limit, lastOffset tokens⟩ ⟨tokens, 0⟩ = .failed error state := by
  have hanswers : program (sufficientBudget tokens) ⟨limit, lastOffset tokens⟩ ⟨tokens, 0⟩ ≠
      .exhausted := program_ne_exhausted le_rfl
  have hlarger : ∀ budget, sufficientBudget tokens ≤ budget →
      program budget ⟨limit, lastOffset tokens⟩ ⟨tokens, 0⟩ =
        program (sufficientBudget tokens) ⟨limit, lastOffset tokens⟩ ⟨tokens, 0⟩ :=
    fun budget hbudget => program_agreesWith hbudget _ _ hanswers
  cases hrun : program (sufficientBudget tokens) ⟨limit, lastOffset tokens⟩ ⟨tokens, 0⟩ with
  | done e state =>
      rw [ofTokens_eq, hrun]
      exact ⟨state, fun budget hbudget => (hlarger budget hbudget).trans hrun⟩
  | failed error state =>
      rw [ofTokens_eq, hrun]
      exact ⟨state, fun budget hbudget => (hlarger budget hbudget).trans hrun⟩
  | exhausted => exact absurd hrun hanswers

end Parser

/-- The tokens of a text start in it, where a character may start. -/
theorem start_of_mem_tokenize {source : String} {tokens : List Token}
    (htokens : tokenize source = .ok tokens) {token : Token} (hmem : token ∈ tokens) :
    token.start ≤ source.utf8ByteSize ∧ (⟨token.start⟩ : String.Pos.Raw).IsValid source := by
  obtain ⟨lexemes, hcovers, rfl⟩ := Token.covers_of_scanAll htokens
  obtain hlexeme | hend := List.mem_append.1 hmem
  · obtain ⟨cut, hstands⟩ := hcovers.standsIn token hlexeme
    have hcut := hstands.isCut
    exact ⟨hcut.start_lt_stop.le.trans hcut.stop_le, hcut.start_valid⟩
  · have hstart : token.start = byteWidth source.toList := by
      rw [List.mem_singleton.1 hend, Nat.zero_add]
    rw [hstart, utf8ByteSize_eq]
    exact ⟨le_rfl, isValid_byteWidth (List.append_nil _).symm⟩

theorem tokens_ne_nil {source : String} {tokens : List Token}
    (htokens : tokenize source = .ok tokens) : tokens ≠ [] := by
  obtain ⟨lexemes, -, rfl⟩ := Token.covers_of_scanAll htokens
  exact List.append_ne_nil_of_right_ne_nil _ (List.cons_ne_nil _ _)

open MotionScript.Parser in
/-- A text is turned down by the parser at the start of one of its tokens, which is in the text and
where a character may start.  Every stream, whatever its tokens are, is read to an answer, and an
error is at the start of one of its tokens, or at zero if it has none. -/
theorem Expr.parse_error_at_token :
    (∀ (limit : Nat) (source : String) (error : ParseError),
      Expr.parseWithin limit source = .error (.parse error) →
        ∃ tokens, tokenize source = .ok tokens ∧ (∃ token ∈ tokens, error.offset = token.start) ∧
          error.offset ≤ source.utf8ByteSize ∧
          (⟨error.offset⟩ : String.Pos.Raw).IsValid source) ∧
      ∀ (limit : Nat) (tokens : List Token),
        match Expr.ofTokens limit tokens with
        | .ok e => ∃ state, ∀ budget, sufficientBudget tokens ≤ budget →
            program budget ⟨limit, lastOffset tokens⟩ ⟨tokens, 0⟩ = .done e state
        | .error error =>
            (∃ state, ∀ budget, sufficientBudget tokens ≤ budget →
              program budget ⟨limit, lastOffset tokens⟩ ⟨tokens, 0⟩ = .failed error state) ∧
            ((∃ token ∈ tokens, error.offset = token.start) ∨ tokens = [] ∧ error.offset = 0) := by
  constructor
  · intro limit source error hparse
    rw [Expr.parseWithin] at hparse
    cases htokens : tokenize source with
    | error fault => rw [htokens] at hparse; cases hparse
    | ok tokens =>
        rw [htokens] at hparse
        cases hresult : Expr.ofTokens limit tokens with
        | ok e => simp only [hresult] at hparse; cases hparse
        | error found =>
            simp only [hresult] at hparse
            cases hparse
            obtain ⟨token, hmem, hoffset⟩ | ⟨hnil, -⟩ := isPlaceOf_of_ofTokens hresult
            · rw [hoffset]
              exact ⟨tokens, rfl, ⟨token, hmem, rfl⟩, start_of_mem_tokenize htokens hmem⟩
            · exact absurd hnil (tokens_ne_nil htokens)
  · intro limit tokens
    have hanswers := ofTokens_answers limit tokens
    cases hresult : Expr.ofTokens limit tokens with
    | ok e =>
        rw [hresult] at hanswers
        exact hanswers
    | error error =>
        rw [hresult] at hanswers
        exact ⟨hanswers, isPlaceOf_of_ofTokens hresult⟩

/-- The number of arguments is wrong, which shows at the end; the error is at the name. -/
theorem Expr.parse_error_at_token_call :
    Expr.parseWithin 128 "query.a; math.pi(query.b)" =
        .error (.parse ⟨9, .arguments 1 "pi", .arguments 0⟩) ∧
      ∃ tokens, tokenize "query.a; math.pi(query.b)" = .ok tokens ∧
        ∃ token ∈ tokens, 9 = token.start := by
  have hparse : Expr.parseWithin 128 "query.a; math.pi(query.b)" =
      .error (.parse ⟨9, .arguments 1 "pi", .arguments 0⟩) := by
    cbv
  obtain ⟨tokens, htokens, hplace, -⟩ := Expr.parse_error_at_token.1 _ _ _ hparse
  exact ⟨hparse, tokens, htokens, hplace⟩

end MotionScript
