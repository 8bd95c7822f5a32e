import MotionScript.Proofs.Lists
import MotionScript.Proofs.Parser.Extent
import MotionScript.Token.Scan
/-!
# Streams of tokens

A text that has tokens has the end as its last one and nowhere else.
-/

namespace MotionScript

namespace Token

open MotionScript.Parser (number_ne_end path_ne_end identifier_ne_end symbol_ne_end)

/-- No lexeme stands for the end of the input. -/
theorem scan_ne_end {offset : Nat} {c : Char} {text : List Char} {kind : Token.Kind} {cut : Cut}
    (hscan : scan offset c text = .ok (kind, cut)) : kind ≠ .endOfInput := by
  rw [scan] at hscan
  split at hscan
  · dsimp only [scanNumber] at hscan
    split at hscan
    · cases hscan
    · split at hscan <;> cases hscan
      exact number_ne_end
  · split at hscan
    · cases hscan
      rw [nameKind]
      split
      · exact path_ne_end
      · exact identifier_ne_end
    · rw [scanSymbol] at hscan
      split at hscan
      · cases hscan
        exact symbol_ne_end
      · split at hscan <;> cases hscan
        exact symbol_ne_end

/-- Scanning ends with the end of the input and has it nowhere else. -/
theorem scanAll_isStream {offset : Nat} {text : List Char} {tokens : List Token}
    (hscan : scanAll offset text = .ok tokens) : Grammar.IsStream (tokens.map Token.kind) := by
  fun_induction scanAll offset text generalizing tokens with
  | case1 offset =>
      cases hscan
      exact ⟨[], List.not_mem_nil, rfl⟩
  | case2 offset c text hblank ih => exact ih hscan
  | case3 offset c text hblank error herror => cases hscan
  | case4 offset c text hblank kind cut hfound stop =>
      rename_i ih
      cases hrest : scanAll stop cut.rest with
      | error error => rw [hrest] at hscan; cases hscan
      | ok rest =>
          rw [hrest] at hscan
          cases hscan
          obtain ⟨body, hbody, hkinds⟩ := ih hrest
          refine ⟨kind :: body, ?_, ?_⟩
          · rw [List.mem_cons, not_or]
            exact ⟨(scan_ne_end hfound).symm, hbody⟩
          · rw [List.map_cons, hkinds, List.cons_append]

end Token

theorem tokenize_isStream {source : String} {tokens : List Token}
    (htokens : tokenize source = .ok tokens) : Grammar.IsStream (tokens.map Token.kind) :=
  Token.scanAll_isStream htokens

end MotionScript
