import MotionScript.Proofs.Token.Bytes
import MotionScript.Proofs.Token.LongestLexeme
/-!
# How tokens cover a text

A text that has tokens is cut into blanks and lexemes and into nothing else.  The bytes of a token
are those of a lexeme of its kind, the longest that starts there; they follow those of the token
before it, and a byte between two tokens is that of a blank.  A text that has no tokens is turned
down at one of its characters.
-/

namespace MotionScript

namespace Token

/-- The tokens that a text, which starts at a byte of the source, is cut into. -/
inductive Covers : Nat → List Char → List Token → Prop where
  | nil (offset : Nat) : Covers offset [] []
  | blank {offset : Nat} {c : Char} {text : List Char} {tokens : List Token}
      (hblank : isBlank c = true) (htext : Covers (offset + c.utf8Size) text tokens) :
      Covers offset (c :: text) tokens
  | lexeme {offset : Nat} {kind : Kind} {cut : Cut} {tokens : List Token}
      (hlexeme : kind.HasLexeme cut.lexeme) (hlexed : kind.IsLexed) (hlongest : IsLongest cut)
      (hrest : Covers (offset + byteWidth cut.lexeme) cut.rest tokens) :
      Covers offset (cut.lexeme ++ cut.rest)
        (⟨kind, offset, offset + byteWidth cut.lexeme⟩ :: tokens)

/-- A text that is scanned is cut into blanks and lexemes, with the end of the input behind them. -/
theorem covers_of_scanAll {offset : Nat} {text : List Char} {tokens : List Token}
    (hscan : scanAll offset text = .ok tokens) :
    ∃ lexemes, Covers offset text lexemes ∧
      tokens = lexemes ++ [⟨.endOfInput, offset + byteWidth text, offset + byteWidth text⟩] := by
  fun_induction scanAll offset text generalizing tokens with
  | case1 offset =>
      cases hscan
      exact ⟨[], .nil offset, rfl⟩
  | case2 offset c text hblank ih =>
      obtain ⟨lexemes, hcovers, rfl⟩ := ih hscan
      refine ⟨lexemes, .blank hblank hcovers, ?_⟩
      rw [byteWidth_cons, Nat.add_assoc]
  | case3 offset c text hblank error herror => cases hscan
  | case4 offset c text hblank kind cut hfound stop =>
      rename_i ih
      cases hrest : scanAll stop cut.rest with
      | error error => rw [hrest] at hscan; cases hscan
      | ok rest =>
          rw [hrest] at hscan
          cases hscan
          obtain ⟨lexemes, hcovers, rfl⟩ := ih hrest
          refine ⟨⟨kind, offset, stop⟩ :: lexemes, ?_, ?_⟩
          · rw [← scan_append hfound]
            exact .lexeme (hasLexeme_of_scan hfound) (scan_isLexed hfound)
              (isLongest_of_scan hfound) hcovers
          · rw [← scan_append hfound, byteWidth_append, ← Nat.add_assoc]
            rfl

/-! ### Where a token stands -/

/-- A token, and the cut of the text that it was made from. -/
structure StandsIn (offset : Nat) (text : List Char) (token : Token) (cut : Cut) : Prop where
  position : ∃ before, text = before ++ (cut.lexeme ++ cut.rest) ∧
    token.start = offset + byteWidth before
  stop_eq : token.stop = token.start + byteWidth cut.lexeme
  hasLexeme : token.kind.HasLexeme cut.lexeme
  isLexed : token.kind.IsLexed
  isLongest : IsLongest cut

/-- More text in front moves a token. -/
theorem StandsIn.behind {offset : Nat} {front text : List Char} {token : Token} {cut : Cut}
    (hstands : StandsIn (offset + byteWidth front) text token cut) :
    StandsIn offset (front ++ text) token cut := by
  obtain ⟨before, rfl, hstart⟩ := hstands.position
  refine { hstands with position := ⟨front ++ before, (List.append_assoc _ _ _).symm, ?_⟩ }
  rw [hstart, byteWidth_append, Nat.add_assoc]

/-- Each token of a text stands in it at its offset. -/
theorem Covers.standsIn {offset : Nat} {text : List Char} {tokens : List Token}
    (hcovers : Covers offset text tokens) :
    ∀ token ∈ tokens, ∃ cut, StandsIn offset text token cut := by
  induction hcovers with
  | nil => exact nofun
  | @blank offset c text tokens _ _ ih =>
      intro token hmem
      obtain ⟨cut, hstands⟩ := ih token hmem
      have hbehind : StandsIn offset ([c] ++ text) token cut := hstands.behind
      exact ⟨cut, hbehind⟩
  | @lexeme offset kind cut tokens hlexeme hlexed hlongest _ ih =>
      intro token hmem
      obtain rfl | hmem := List.mem_cons.1 hmem
      · exact ⟨cut, ⟨[], rfl, rfl⟩, rfl, hlexeme, hlexed, hlongest⟩
      · obtain ⟨later, hstands⟩ := ih token hmem
        exact ⟨later, hstands.behind⟩

theorem StandsIn.offset_le {offset : Nat} {text : List Char} {token : Token} {cut : Cut}
    (hstands : StandsIn offset text token cut) : offset ≤ token.start := by
  obtain ⟨before, -, hstart⟩ := hstands.position
  rw [hstart]
  exact Nat.le_add_right _ _

/-- A token starts where the one before it stops, or later. -/
theorem Covers.pairwise {offset : Nat} {text : List Char} {tokens : List Token}
    (hcovers : Covers offset text tokens) :
    tokens.Pairwise fun token later => token.stop ≤ later.start := by
  induction hcovers with
  | nil => exact List.Pairwise.nil
  | blank _ _ ih => exact ih
  | lexeme _ _ _ hrest ih =>
      refine List.pairwise_cons.2 ⟨?_, ih⟩
      intro later hmem
      obtain ⟨cut, hstands⟩ := hrest.standsIn later hmem
      exact hstands.offset_le

/-- What no token covers is a blank. -/
theorem Covers.exists_blank {offset : Nat} {text : List Char} {tokens : List Token}
    (hcovers : Covers offset text tokens) {position : Nat} (hfirst : offset ≤ position)
    (hlast : position < offset + byteWidth text)
    (houtside : ∀ token ∈ tokens, position < token.start ∨ token.stop ≤ position) :
    ∃ front c back, text = front ++ c :: back ∧ isBlank c = true ∧
      position = offset + byteWidth front := by
  induction hcovers with
  | nil offset => exact absurd hlast (Nat.not_lt.2 hfirst)
  | @blank offset c text tokens hblank _ ih =>
      rw [byteWidth_cons, utf8Size_of_isBlank hblank] at hlast
      rw [utf8Size_of_isBlank hblank] at ih
      obtain rfl | hbehind := Nat.eq_or_lt_of_le hfirst
      · exact ⟨[], c, text, rfl, hblank, rfl⟩
      · obtain ⟨front, d, back, rfl, hd, rfl⟩ := ih hbehind (by omega) houtside
        refine ⟨c :: front, d, back, rfl, hd, ?_⟩
        rw [byteWidth_cons, utf8Size_of_isBlank hblank, Nat.add_assoc]
  | @lexeme offset kind cut tokens _ _ _ _ ih =>
      obtain ⟨hhead, htail⟩ := List.forall_mem_cons.1 houtside
      have hbehind := hhead.resolve_left (Nat.not_lt.2 hfirst)
      rw [byteWidth_append, ← Nat.add_assoc] at hlast
      obtain ⟨front, d, back, hrest, hd, rfl⟩ := ih hbehind hlast htail
      refine ⟨cut.lexeme ++ front, d, back, ?_, hd, ?_⟩
      · rw [hrest, List.append_assoc]
      · rw [byteWidth_append, Nat.add_assoc]

/-! ### Where a text is turned down -/

/-- A scan that fails points inside the text that it was given. -/
theorem error_of_scan {offset : Nat} {c : Char} {text : List Char} {error : LexError}
    (hscan : scan offset c text = .error error) :
    ∃ front back, back ≠ [] ∧ c :: text = front ++ back ∧
      error.offset = offset + byteWidth front := by
  have hhere (fault : LexFault) : ∃ front back, back ≠ [] ∧ c :: text = front ++ back ∧
      (LexError.mk offset fault).offset = offset + byteWidth front :=
    ⟨[], c :: text, List.cons_ne_nil _ _, rfl, rfl⟩
  rw [scan] at hscan
  split at hscan
  · dsimp only [scanNumber] at hscan
    split at hscan
    next hsuffix =>
      cases hscan
      refine ⟨(numeral (c :: text)).lexeme, (numeral (c :: text)).rest, ?_,
        (numeral_append _).symm, rfl⟩
      intro hnil
      rw [hnil] at hsuffix
      cases hsuffix
    next =>
      split at hscan <;> cases hscan
      exact hhere _
  · split at hscan
    · cases hscan
    · rw [scanSymbol] at hscan
      split at hscan
      · cases hscan
      · split at hscan <;> cases hscan
        exact hhere _

/-- A text that is not scanned has an error at one of its characters. -/
theorem error_of_scanAll {offset : Nat} {text : List Char} {error : LexError}
    (hscan : scanAll offset text = .error error) :
    ∃ front back, back ≠ [] ∧ text = front ++ back ∧
      error.offset = offset + byteWidth front := by
  fun_induction scanAll offset text with
  | case1 offset => cases hscan
  | case2 offset c text hblank ih =>
      obtain ⟨front, back, hne, rfl, hoffset⟩ := ih hscan
      refine ⟨c :: front, back, hne, rfl, ?_⟩
      rw [hoffset, byteWidth_cons, Nat.add_assoc]
  | case3 offset c text hblank found hfound =>
      cases hscan
      exact error_of_scan hfound
  | case4 offset c text hblank kind cut hfound stop =>
      rename_i ih
      cases hrest : scanAll stop cut.rest with
      | ok rest => rw [hrest] at hscan; cases hscan
      | error found =>
          rw [hrest] at hscan
          cases hscan
          obtain ⟨front, back, hne, htext, hoffset⟩ := ih hrest
          refine ⟨cut.lexeme ++ front, back, hne, ?_, ?_⟩
          · rw [← scan_append hfound, htext, List.append_assoc]
          · rw [hoffset, byteWidth_append, Nat.add_assoc]

/-! ### The text of a token -/

theorem toList_text {source : String} (token : Token) {before rest : List Char}
    (hsource : source.toList = before ++ rest) (hstart : token.start = byteWidth before) :
    (token.text source).toList = (takeBytes (token.stop - token.start) rest).getD [] := by
  rw [Token.text, String.toList_ofList, hsource, hstart, dropBytes_append]
  rfl

/-- Nothing is a lexeme without a character. -/
theorem not_isLexeme_nil : ¬ IsLexeme [] := by
  rintro ⟨kind, hlexeme⟩
  obtain ⟨number, hnumber, hnil, -⟩ | ⟨hname, -⟩ | ⟨symbol, hsymbol, -⟩ := hlexeme.classes
  · have hstart := startsNumeral_lexeme hnumber
    rw [← hnil] at hstart
    cases hstart
  · cases hname
  · obtain ⟨c, hspelling, -⟩ | ⟨c, d, hspelling, -⟩ := symbol.spelling_cases <;>
    · rw [hspelling] at hsymbol
      cases hsymbol

theorem Kind.HasLexeme.ne_nil {kind : Kind} {text : List Char} (hlexeme : kind.HasLexeme text) :
    text ≠ [] := by
  rintro rfl
  exact not_isLexeme_nil ⟨kind, hlexeme⟩

/-- What is taken beyond a lexeme is the lexeme and something behind it. -/
theorem exists_more {lexeme rest taken : List Char} {width : Nat}
    (htaken : takeBytes width (lexeme ++ rest) = some taken) (hwidth : byteWidth lexeme < width) :
    ∃ more, taken = lexeme ++ more ∧ more <+: rest ∧ more ≠ [] := by
  obtain ⟨hfront, rfl⟩ := prefix_of_takeBytes htaken
  obtain ⟨tail, rfl⟩ | ⟨more, rfl⟩ :=
    List.prefix_or_prefix_of_prefix hfront (List.prefix_append lexeme rest)
  · rw [byteWidth_append] at hwidth
    omega
  · refine ⟨more, rfl, (List.prefix_append_right_inj lexeme).1 hfront, ?_⟩
    rintro rfl
    rw [List.append_nil] at hwidth
    exact absurd hwidth (Nat.lt_irrefl _)

/-- What a token is in its source: bytes that make a lexeme of its kind and of no other, and with
more bytes behind them no lexeme at all. -/
structure IsCut (source : String) (token : Token) : Prop where
  start_lt_stop : token.start < token.stop
  stop_le : token.stop ≤ source.utf8ByteSize
  start_valid : (⟨token.start⟩ : String.Pos.Raw).IsValid source
  stop_valid : (⟨token.stop⟩ : String.Pos.Raw).IsValid source
  hasLexeme_iff : ∀ kind : Kind, kind.HasLexeme (token.text source).toList ↔ kind = token.kind
  number : ∀ value, token.kind = .number value →
    Single.read? (token.text source) = some value ∧ value.isFinite = true
  longest : ∀ stop, token.stop < stop → ¬ IsLexeme ({ token with stop }.text source).toList

/-- A token that stands in a source is cut out of it as its bytes say. -/
theorem StandsIn.isCut {source : String} {token : Token} {cut : Cut}
    (hstands : StandsIn 0 source.toList token cut) : token.IsCut source := by
  obtain ⟨before, hsource, hstart⟩ := hstands.position
  have hstop := hstands.stop_eq
  have hpos := byteWidth_pos hstands.hasLexeme.ne_nil
  have htext : (token.text source).toList = cut.lexeme := by
    have hwidth : token.stop - token.start = byteWidth cut.lexeme := by omega
    rw [toList_text token hsource (by omega), hwidth, takeBytes_append]
    rfl
  have hwhole : source.toList = (before ++ cut.lexeme) ++ cut.rest := by
    rw [hsource, List.append_assoc]
  refine ⟨by omega, ?_, ?_, ?_, ?_, ?_, ?_⟩
  · rw [utf8ByteSize_eq, hwhole, byteWidth_append, byteWidth_append]
    omega
  · rw [hstart, Nat.zero_add]
    exact isValid_byteWidth hsource
  · rw [hstop, hstart, Nat.zero_add, ← byteWidth_append]
    exact isValid_byteWidth hwhole
  · intro kind
    rw [htext]
    exact ⟨fun hkind => hkind.unique hstands.hasLexeme, fun hkind => hkind ▸ hstands.hasLexeme⟩
  · intro value hvalue
    have hlexeme := hstands.hasLexeme
    have hlexed := hstands.isLexed
    rw [hvalue] at hlexeme hlexed
    refine ⟨?_, hlexed⟩
    rw [← String.ofList_toList (s := token.text source), htext]
    exact hlexeme.read?_eq
  · intro stop hbehind
    rw [toList_text { token with stop } hsource (by rw [hstart, Nat.zero_add])]
    cases htaken : takeBytes (stop - token.start) (cut.lexeme ++ cut.rest) with
    | none => exact not_isLexeme_nil
    | some taken =>
        obtain ⟨more, rfl, hmore, hne⟩ := exists_more htaken (by omega)
        exact hstands.isLongest more hmore hne

end Token

/-- A text that has tokens is the lexemes of its tokens, in their order and with blanks between
them, and the last token is its end.  A text that has none is turned down where one of its
characters starts. -/
theorem tokenize_covers (source : String) :
    match tokenize source with
    | .ok tokens =>
      ∃ lexemes, tokens = lexemes ++ [⟨.endOfInput, source.utf8ByteSize, source.utf8ByteSize⟩] ∧
        (∀ token ∈ lexemes, token.IsCut source) ∧
        (lexemes.Pairwise fun token later => token.stop ≤ later.start) ∧
        ∀ (position : String.Pos.Raw) (hinside : position < source.rawEndPos),
          (∀ token ∈ lexemes,
            position.byteIdx < token.start ∨ token.stop ≤ position.byteIdx) →
          source.getUTF8Byte position hinside ∈ blankBytes
    | .error error =>
      error.offset < source.utf8ByteSize ∧ (⟨error.offset⟩ : String.Pos.Raw).IsValid source := by
  rw [utf8ByteSize_eq]
  split
  next tokens htokens =>
    obtain ⟨lexemes, hcovers, rfl⟩ := Token.covers_of_scanAll htokens
    refine ⟨lexemes, by rw [Nat.zero_add], ?_, hcovers.pairwise, ?_⟩
    · intro token hmem
      obtain ⟨cut, hstands⟩ := hcovers.standsIn token hmem
      exact hstands.isCut
    · intro position hinside houtside
      have hlast : position.byteIdx < 0 + byteWidth source.toList := by
        rw [Nat.zero_add, ← utf8ByteSize_eq]
        exact hinside
      obtain ⟨front, c, back, hsource, hblank, hposition⟩ :=
        hcovers.exists_blank (Nat.zero_le _) hlast houtside
      obtain rfl : position = ⟨byteWidth front⟩ :=
        String.Pos.Raw.ext (hposition.trans (Nat.zero_add _))
      exact getUTF8Byte_mem_blankBytes hsource hblank hinside
  next error herror =>
    obtain ⟨front, back, hne, hsource, hoffset⟩ := Token.error_of_scanAll herror
    rw [hoffset, Nat.zero_add]
    refine ⟨?_, isValid_byteWidth hsource⟩
    rw [hsource, byteWidth_append]
    exact Nat.lt_add_of_pos_right (byteWidth_pos hne)

/-- The dot belongs to the name, and the two characters of the comparison to one symbol. -/
example : tokenize "a.b <=c" = .ok [⟨.path "a.b", 0, 3⟩, ⟨.symbol .lessEqual, 4, 6⟩,
    ⟨.identifier "c", 6, 7⟩, ⟨.endOfInput, 7, 7⟩] := by
  cbv

end MotionScript
