import MotionScript.Proofs.Token.Spans
/-!
# Layout

A lexeme with a text behind it that closes it is scanned as the token that it is on its own,
whatever stood beside it before.  A blank closes every lexeme.  So the lexemes of a text may be laid
out anew, with any blanks between them, and are scanned as tokens of the same kinds.
-/

namespace MotionScript

/-- Texts one after another, with a gap before each but the first. -/
def spaced (texts gaps : List String) : String :=
  match texts with
  | [] => ""
  | first :: others => first ++ String.join (List.zipWith (· ++ ·) gaps others)

/-- Blanks, and at least one. -/
def IsGap (gap : String) : Prop :=
  gap ≠ "" ∧ ∀ c ∈ gap.toList, isBlank c = true

namespace Token

open Decimal (Numeral)

variable {text lexeme : List Char} {kinds : List Kind}

/-! ### Lexemes by themselves -/

theorem startsNumeral_append (hstart : startsNumeral lexeme = true) (text : List Char) :
    startsNumeral (lexeme ++ text) = true := by
  obtain _ | ⟨c, _ | ⟨d, lexeme⟩⟩ := lexeme
  · cases hstart
  · rw [startsNumeral] at hstart
    · exact startsNumeral_of_isDigit hstart text
    · rintro _ _ _ ⟨⟩
  · have hfront : c :: d :: lexeme <+: (c :: d :: lexeme) ++ text := List.prefix_append _ text
    rw [← hstart, startsNumeral_of_prefix hfront (Nat.le_add_left 2 lexeme.length)]

/-- A numeral as it was written scans to its value in front of what closes it. -/
theorem Scans.numeral {number : Numeral} (htext : Scans text kinds) (hwritten : number.IsWritten)
    (hfinite : number.decimal.toSingle.isFinite = true) (hcloses : Closes text) :
    Scans (number.lexeme ++ text) (.number number.decimal.toSingle :: kinds) := by
  have hstart := startsNumeral_lexeme hwritten
  cases hlexeme : number.lexeme with
  | nil => rw [hlexeme] at hstart; cases hstart
  | cons c lexeme =>
      have hblank : isBlank c = false := by
        obtain hdigit | rfl := forall_mem_lexeme hwritten c (hlexeme ▸ List.mem_cons_self)
        · exact isBlank_of_isNameChar (isNameChar_of_isDigit hdigit)
        · rfl
      rw [hlexeme] at hstart
      exact htext.lexeme hblank (scan_numeral hwritten.whole_digits hwritten.fraction_digits
        hfinite hlexeme (startsNumeral_append hstart text) hcloses)

/-- A lexeme before a text that closes it is scanned as the token that it is. -/
theorem Scans.ofLexeme {kind : Kind} (htext : Scans text kinds) (hlexeme : kind.HasLexeme lexeme)
    (hlexed : kind.IsLexed) (hcloses : Closes text) : Scans (lexeme ++ text) (kind :: kinds) := by
  obtain ⟨number, hwritten, rfl, rfl⟩ | ⟨hname, rfl⟩ | ⟨symbol, rfl, rfl⟩ := hlexeme.classes
  · rw [numeralValue_isWritten hwritten] at hlexed ⊢
    exact htext.numeral hwritten hlexed hcloses
  · exact htext.name hname hcloses
  · exact htext.symbol hcloses.apart

/-! ### Gaps -/

/-- A blank closes every lexeme. -/
theorem closes_of_isBlank {c : Char} (hblank : isBlank c = true) (text : List Char) :
    Closes (c :: text) := by
  rintro d ⟨rfl⟩
  refine ⟨?_, ?_⟩
  · simp only [isBlank, Bool.or_eq_true, beq_iff_eq] at hblank
    obtain (((rfl | rfl) | rfl) | rfl) | rfl := hblank <;> decide
  · apply Bool.eq_false_iff.2
    intro hchar
    rw [isBlank_of_isNameChar hchar] at hblank
    cases hblank

theorem Scans.blanks {blanks : List Char} (htext : Scans text kinds)
    (hblanks : ∀ c ∈ blanks, isBlank c = true) : Scans (blanks ++ text) kinds := by
  induction blanks with
  | nil => exact htext
  | cons c blanks ih =>
      obtain ⟨hblank, hblanks⟩ := List.forall_mem_cons.1 hblanks
      exact (ih hblanks).blank hblank

theorem closes_of_isGap {gap : String} (hgap : IsGap gap) (text : List Char) :
    Closes (gap.toList ++ text) := by
  obtain ⟨hne, hblanks⟩ := hgap
  cases hchars : gap.toList with
  | nil => exact absurd (String.toList_eq_nil_iff.1 hchars) hne
  | cons c blanks => exact closes_of_isBlank (hblanks c (hchars ▸ List.mem_cons_self)) _

/-! ### Tokens laid out anew -/

section Layout

variable {source : String} {gaps : List String}

/-- The token of a text is one that its own text is scanned as. -/
def StandsAlone (source : String) (token : Token) : Prop :=
  token.kind.HasLexeme (token.text source).toList ∧ token.kind.IsLexed

theorem StandsIn.standsAlone {token : Token} {cut : Cut}
    (hstands : StandsIn 0 source.toList token cut) : token.StandsAlone source :=
  ⟨(hstands.isCut.hasLexeme_iff token.kind).2 rfl, hstands.isLexed⟩

/-- Lexemes with a gap before each. -/
theorem scans_others {tokens : List Token} (hgaps : ∀ gap ∈ gaps, IsGap gap)
    (hlength : gaps.length = tokens.length)
    (htokens : ∀ token ∈ tokens, token.StandsAlone source) :
    let text := String.join (List.zipWith (· ++ ·) gaps (tokens.map (Token.text source)))
    Closes text.toList ∧ Scans text.toList (tokens.map kind ++ [.endOfInput]) := by
  induction tokens generalizing gaps with
  | nil =>
      rw [List.map_nil, List.zipWith_nil_right]
      exact ⟨.nil, .nil⟩
  | cons token tokens ih =>
      obtain ⟨gap, gaps, rfl⟩ := List.exists_cons_of_length_eq_add_one hlength
      obtain ⟨hgap, hgaps⟩ := List.forall_mem_cons.1 hgaps
      obtain ⟨htoken, htokens⟩ := List.forall_mem_cons.1 htokens
      obtain ⟨hcloses, hscans⟩ := ih hgaps (Nat.succ.inj hlength) htokens
      simp only [List.map_cons, List.zipWith_cons_cons, String.join_cons, String.toList_append,
        List.append_assoc, List.cons_append]
      exact ⟨closes_of_isGap hgap _, (hscans.ofLexeme htoken.1 htoken.2 hcloses).blanks hgap.2⟩

/-- Lexemes with gaps between them scan to the kinds that they had. -/
theorem scans_spaced {tokens : List Token} (hgaps : ∀ gap ∈ gaps, IsGap gap)
    (hlength : gaps.length = tokens.length - 1)
    (htokens : ∀ token ∈ tokens, token.StandsAlone source) :
    Scans (spaced (tokens.map (Token.text source)) gaps).toList
      (tokens.map kind ++ [.endOfInput]) := by
  cases tokens with
  | nil => exact .nil
  | cons token tokens =>
      obtain ⟨htoken, htokens⟩ := List.forall_mem_cons.1 htokens
      obtain ⟨hcloses, hscans⟩ := scans_others hgaps hlength htokens
      simp only [List.map_cons, spaced, String.toList_append, List.cons_append]
      exact hscans.ofLexeme htoken.1 htoken.2 hcloses

end Layout

end Token

end MotionScript
