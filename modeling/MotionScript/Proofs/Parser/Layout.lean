import MotionScript.Proofs.Parser.Places
import MotionScript.Proofs.Token.Spacing
/-!
# Programs do not depend on layout

Tokens of the same kinds are the same program wherever they stand.  So a text and the same lexemes
with other blanks between them have the same tree, or none.
-/

namespace MotionScript

open MotionScript.Parser

/-- Streams of the same kinds stand for the same tree, or for none. -/
theorem Expr.toOption_ofTokens_of_kinds {tokens tokens' : List Token}
    (hkinds : tokens.map Token.kind = tokens'.map Token.kind) (limit : Nat) :
    (ofTokens limit tokens).toOption = (ofTokens limit tokens').toOption := by
  have htokens : List.Forall₂ (SameToken fun _ _ => True) tokens tokens' := by
    have hequal : List.Forall₂ (· = ·) (tokens.map Token.kind) (tokens'.map Token.kind) := by
      rw [hkinds]
      exact List.forall₂_refl _
    rw [List.forall₂_map_left_iff, List.forall₂_map_right_iff] at hequal
    exact hequal.imp fun _ _ hkind => ⟨hkind, trivial⟩
  have hsame := ofTokens_alike limit htokens trivial
  generalize ofTokens limit tokens = result at hsame ⊢
  generalize ofTokens limit tokens' = result' at hsame ⊢
  cases hsame with
  | ok e => rfl
  | error found expected _ => rfl

/-- The tree of a text is that of its tokens. -/
theorem Expr.toOption_parseWithin {source : String} {tokens : List Token}
    (htokens : tokenize source = .ok tokens) (limit : Nat) :
    (parseWithin limit source).toOption = (ofTokens limit tokens).toOption := by
  rw [parseWithin, htokens]
  dsimp only
  cases ofTokens limit tokens <;> rfl

/-- The lexemes of a text, laid out anew with a gap between each two of them, are tokens of the same
kinds in the same order, and stand for the same tree. -/
theorem tokenize_spaced {source : String} {tokens : List Token} {gaps : List String}
    (htokens : tokenize source = .ok tokens) (hgaps : ∀ gap ∈ gaps, IsGap gap)
    (hlength : gaps.length = tokens.dropLast.length - 1) :
    let text := spaced (tokens.dropLast.map (Token.text source)) gaps
    ∃ laidOut, tokenize text = .ok laidOut ∧
      laidOut.map Token.kind = tokens.map Token.kind ∧
      ∀ limit, (Expr.parseWithin limit text).toOption =
        (Expr.parseWithin limit source).toOption := by
  intro text
  obtain ⟨lexemes, hcovers, hsplit⟩ := Token.covers_of_scanAll htokens
  obtain ⟨last, hlast, rfl⟩ :
      ∃ last : Token, last.kind = .endOfInput ∧ tokens = lexemes ++ [last] :=
    ⟨_, rfl, hsplit⟩
  have halone : ∀ token ∈ lexemes, token.StandsAlone source := by
    intro token hmem
    obtain ⟨cut, hstands⟩ := hcovers.standsIn token hmem
    exact hstands.standsAlone
  rw [List.dropLast_concat] at hlength
  obtain ⟨laidOut, hlaidOut, hkinds⟩ := Token.scans_spaced hgaps hlength halone 0
  have htext : tokenize text = .ok laidOut := by
    rw [← hlaidOut]
    simp only [text, List.dropLast_concat]
    rfl
  have hsame : laidOut.map Token.kind = (lexemes ++ [last]).map Token.kind := by
    rw [hkinds, List.map_append, List.map_singleton, hlast]
  refine ⟨laidOut, htext, hsame, fun limit => ?_⟩
  rw [Expr.toOption_parseWithin htext, Expr.toOption_parseWithin htokens,
    Expr.toOption_ofTokens_of_kinds hsame]

/-- The lexemes of a text without blanks, with a point at the start of one numeral and at the end of
another. -/
theorem tokenize_spaced_compact :
    ∃ laidOut, tokenize "q.a\t<=  .5\n&& - 7.\r\n== q.b" = .ok laidOut ∧
      laidOut.map Token.kind = [.path "q.a", .symbol .lessEqual, .number 0.5, .symbol .bothTrue,
        .symbol .minus, .number 7, .symbol .equal, .path "q.b", .endOfInput] ∧
      ∀ limit, (Expr.parseWithin limit "q.a\t<=  .5\n&& - 7.\r\n== q.b").toOption =
        (Expr.parseWithin limit "q.a<=.5&&-7.==q.b").toOption := by
  have htokens : tokenize "q.a<=.5&&-7.==q.b" = .ok [⟨.path "q.a", 0, 3⟩,
      ⟨.symbol .lessEqual, 3, 5⟩, ⟨.number 0.5, 5, 7⟩, ⟨.symbol .bothTrue, 7, 9⟩,
      ⟨.symbol .minus, 9, 10⟩, ⟨.number 7, 10, 12⟩, ⟨.symbol .equal, 12, 14⟩,
      ⟨.path "q.b", 14, 17⟩, ⟨.endOfInput, 17, 17⟩] :=
    eq_ok_of_toOption (by decide +kernel)
  have hgaps : ∀ gap ∈ ["\t", "  ", "\n", " ", " ", "\r\n", " "], IsGap gap := by
    simp [IsGap, isBlank]
  have hspaced := tokenize_spaced htokens hgaps rfl
  exact hspaced

end MotionScript
