import MotionScript.Proofs.Number.Sign
import MotionScript.Proofs.Token.Spelling
/-!
# What tokens hold

Scanning cuts a path where the name ends, reads a numeral without a sign, and turns it down if its
value is not finite.  So the paths of a stream of tokens are names, and its numbers are finite and
not negative.
-/

namespace MotionScript

namespace Token

/-- Whether scanning may give a token of the kind. -/
def Kind.IsLexed : Kind → Prop
  | .number value => value.isFinite = true
  | .path name => isName name.toList = true
  | _ => True

/-- What is cut off as the tail of a name can end a name. -/
theorem endsName_nameTail (text : List Char) : endsName (nameTail text).lexeme = true := by
  fun_induction nameTail text with
  | case1 c text hstart ih =>
      change (isNameStart c && endsName (nameTail text).lexeme) = true
      rw [hstart, ih]
      rfl
  | case2 => rfl
  | case3 c text _ hchar ih =>
      have hdot := ne_dot_of_isNameChar hchar
      change endsName (c :: (nameTail text).lexeme) = true
      rw [endsName, hchar, ih]
      · rfl
      · exact fun _ _ hc => absurd hc hdot
  | case4 => rfl
  | case5 => rfl

theorem nameKind_isLexed {lexeme : List Char} (hname : isName lexeme = true) :
    (nameKind lexeme).IsLexed := by
  rw [nameKind]
  split
  · rw [Kind.IsLexed, String.toList_ofList, hname]
  · trivial

/-- What is scanned is of a kind that lexemes have, with a finite value if it is a number. -/
theorem scan_isLexed {offset : Nat} {c : Char} {text : List Char} {kind : Kind} {cut : Cut}
    (hscan : scan offset c text = .ok (kind, cut)) : kind.IsLexed := by
  rw [scan] at hscan
  split at hscan
  · dsimp only [scanNumber] at hscan
    split at hscan
    · cases hscan
    · split at hscan <;> cases hscan
      assumption
  · split at hscan
    next hstart =>
      cases hscan
      apply nameKind_isLexed
      change (isNameStart c && endsName (nameTail text).lexeme) = true
      rw [hstart, endsName_nameTail]
      rfl
    next =>
      rw [scanSymbol] at hscan
      split at hscan
      · cases hscan
        trivial
      · split at hscan <;> cases hscan
        trivial

/-- A sign is a token of its own. -/
theorem isNegative_of_scan {offset : Nat} {c : Char} {text : List Char} {value : Float32}
    {cut : Cut} (hscan : scan offset c text = .ok (.number value, cut)) :
    Single.isNegative value = false := by
  rw [scan] at hscan
  split at hscan
  · dsimp only [scanNumber] at hscan
    split at hscan
    · cases hscan
    · split at hscan <;> cases hscan
      exact Single.isNegative_toSingle _
  · split at hscan
    · simp only [nameKind] at hscan
      split at hscan <;> cases hscan
    · rw [scanSymbol] at hscan
      split at hscan
      · cases hscan
      · split at hscan <;> cases hscan

/-- What holds of the end and of everything that scanning gives holds of all tokens. -/
theorem forall_mem_scanAll {property : Kind → Prop} (hend : property .endOfInput)
    (hscans : ∀ {offset : Nat} {c : Char} {text : List Char} {kind : Kind} {cut : Cut},
      scan offset c text = .ok (kind, cut) → property kind)
    {offset : Nat} {text : List Char} {tokens : List Token}
    (hscan : scanAll offset text = .ok tokens) : ∀ found ∈ tokens.map kind, property found := by
  fun_induction scanAll offset text generalizing tokens with
  | case1 offset =>
      cases hscan
      exact List.forall_mem_singleton.2 hend
  | case2 offset c text hblank ih => exact ih hscan
  | case3 offset c text hblank error herror => cases hscan
  | case4 offset c text hblank kind cut hfound stop =>
      rename_i ih
      cases hrest : scanAll stop cut.rest with
      | error error => rw [hrest] at hscan; cases hscan
      | ok rest =>
          rw [hrest] at hscan
          cases hscan
          rw [List.map_cons]
          exact List.forall_mem_cons.2 ⟨hscans hfound, ih hrest⟩

end Token

theorem tokenize_isLexed {source : String} {tokens : List Token}
    (htokens : tokenize source = .ok tokens) : ∀ kind ∈ tokens.map Token.kind, kind.IsLexed :=
  Token.forall_mem_scanAll trivial Token.scan_isLexed htokens

theorem tokenize_isNegative {source : String} {tokens : List Token}
    (htokens : tokenize source = .ok tokens) {value : Float32}
    (hmem : .number value ∈ tokens.map Token.kind) : Single.isNegative value = false := by
  have hnumbers : ∀ kind ∈ tokens.map Token.kind, ∀ value, kind = .number value →
      Single.isNegative value = false :=
    Token.forall_mem_scanAll nofun
      (fun hscan value hkind => Token.isNegative_of_scan (hkind ▸ hscan)) htokens
  exact hnumbers _ hmem value rfl

end MotionScript
