import MotionScript.Proofs.Token.LexemeKinds
/-!
# The longest lexeme

What is scanned at the head of a text is a lexeme of its kind and the longest one there: however
much of the rest is added to it, it is no lexeme any more.  A numeral would get a second point, a
name a character that no name goes on with, and a symbol a character that makes no other symbol.
-/

namespace MotionScript

namespace Token

/-! ### Nothing longer -/

/-- Nothing that starts the rest of a text goes on with the lexeme before it. -/
def IsLongest (cut : Cut) : Prop :=
  ∀ more, more <+: cut.rest → more ≠ [] → ¬ IsLexeme (cut.lexeme ++ more)

/-- The first two characters show whether a text starts with a numeral. -/
theorem startsNumeral_of_prefix {front text : List Char} (hfront : front <+: text)
    (hlength : 2 ≤ front.length) : startsNumeral front = startsNumeral text := by
  obtain ⟨tail, rfl⟩ := hfront
  match front, hlength with
  | c :: d :: front, _ =>
    by_cases hpoint : c = '.'
    · subst hpoint
      rfl
    · simp only [List.cons_append]
      rw [startsNumeral, startsNumeral]
      · exact fun _ _ hc => absurd hc hpoint
      · exact fun _ _ hc => absurd hc hpoint

/-- Whether a longer lexeme is a numeral shows where the one before it starts. -/
theorem startsNumeral_extended {cut : Cut} {more : List Char} (hlexeme : cut.lexeme ≠ [])
    (hmore : more <+: cut.rest) (hne : more ≠ []) :
    startsNumeral (cut.lexeme ++ more) = startsNumeral (cut.lexeme ++ cut.rest) := by
  refine startsNumeral_of_prefix ((List.prefix_append_right_inj _).2 hmore) ?_
  have hlength := List.length_pos_iff.2 hlexeme
  have hpos := List.length_pos_iff.2 hne
  rw [List.length_append]
  omega

/-- A numeral is cut off where neither a digit nor its first point follows. -/
theorem numeral_isLongest {text : List Char} (hstart : startsNumeral text = true)
    (hsuffix : (numeral text).rest.head?.any isNameChar = false) : IsLongest (numeral text) := by
  rintro more hmore hne ⟨kind, hextended⟩
  obtain ⟨number, hlexeme, hwhole, hfraction, -, hpoint⟩ := numeral_parts text
  have hextendedStart : startsNumeral ((numeral text).lexeme ++ more) = true := by
    rw [startsNumeral_extended (numeral_lexeme_ne_nil hstart) hmore hne, numeral_append, hstart]
  obtain ⟨c, more, rfl⟩ := List.exists_cons_of_ne_nil hne
  have hhead : (numeral text).rest.head? = some c := by
    obtain ⟨tail, htail⟩ := hmore
    rw [← htail, List.cons_append, List.head?_cons]
  obtain ⟨longer, hlonger, hequal, -⟩ | ⟨hname, -⟩ | ⟨symbol, hsymbol, -⟩ := hextended.classes
  · -- What follows is a point then, which would be the second one.
    have hdigit : c.isDigit = true ∨ c = '.' :=
      forall_mem_lexeme hlonger c (by rw [← hequal]; simp)
    rw [hhead, Option.any_some] at hsuffix
    have hdot : c = '.' := by
      refine hdigit.resolve_left fun hdigit => ?_
      rw [isNameChar_of_isDigit hdigit] at hsuffix
      cases hsuffix
    have hsome : number.fraction ≠ none := fun hnone => hpoint hnone c hhead hdot
    have hcount := congrArg (List.count '.') hequal
    rw [hlexeme, List.count_append, count_point_lexeme hwhole hfraction, if_neg hsome, hdot,
      List.count_cons_self, count_point_lexeme hlonger.whole_digits hlonger.fraction_digits]
      at hcount
    split at hcount <;> omega
  · rw [startsNumeral_of_isName hname] at hextendedStart
    cases hextendedStart
  · rw [hsymbol, startsNumeral_spelling] at hextendedStart
    cases hextendedStart

/-- Behind something that can end a name, it is the rest that decides. -/
theorem endsName_append_of_endsName {front back : List Char} (hfront : endsName front = true) :
    endsName (front ++ back) = endsName back := by
  fun_induction endsName front with
  | case1 c front ih =>
      rw [Bool.and_eq_true] at hfront
      rw [List.cons_append, List.cons_append, endsName, hfront.1, ih hfront.2, Bool.true_and]
  | case2 c front _ ih =>
      rw [Bool.and_eq_true] at hfront
      rw [List.cons_append, endsName, hfront.1, ih hfront.2, Bool.true_and]
      exact fun _ _ hc => absurd hc (ne_dot_of_isNameChar hfront.1)
  | case3 => rw [List.nil_append]

/-- What is left behind goes on with no name. -/
theorem endsName_of_prefix_rest {text more : List Char} (hmore : more <+: (nameTail text).rest)
    (hne : more ≠ []) : endsName more = false := by
  fun_induction nameTail text with
  | case1 c text _ ih => exact ih hmore
  | case2 c text hstart =>
      obtain ⟨first, more, rfl⟩ := List.exists_cons_of_ne_nil hne
      obtain ⟨rfl, hrest⟩ := List.cons_prefix_cons.1 hmore
      cases more with
      | nil => rfl
      | cons second more =>
          obtain ⟨rfl, -⟩ := List.cons_prefix_cons.1 hrest
          rw [endsName, Bool.eq_false_iff.2 hstart, Bool.false_and]
  | case3 c text _ _ ih => exact ih hmore
  | case4 c text hdot hchar =>
      obtain ⟨first, more, rfl⟩ := List.exists_cons_of_ne_nil hne
      obtain ⟨rfl, hrest⟩ := List.cons_prefix_cons.1 hmore
      rw [endsName, Bool.eq_false_iff.2 hchar, Bool.false_and]
      rintro second tail hfirst rfl
      obtain ⟨rest, rfl⟩ := hrest
      exact hdot second _ hfirst rfl
  | case5 => exact absurd (List.prefix_nil.1 hmore) hne

theorem isNameStart_of_spelling {symbol : Symbol} {c : Char} {text : List Char}
    (hspelling : symbol.spelling.toList = c :: text) : isNameStart c = false := by
  cases symbol <;> cases hspelling <;> rfl

/-- A name is cut off where nothing goes on with it. -/
theorem name_isLongest {c : Char} {text : List Char} (hstart : isNameStart c = true) :
    IsLongest ((nameTail text).after c) := by
  rintro more hmore hne ⟨kind, hextended⟩
  have hends : endsName ((nameTail text).lexeme ++ more) = false := by
    rw [endsName_append_of_endsName (endsName_nameTail text), endsName_of_prefix_rest hmore hne]
  obtain ⟨number, hnumber, hequal, -⟩ | ⟨hname, -⟩ | ⟨symbol, hsymbol, -⟩ := hextended.classes
  · have hnumeral := startsNumeral_lexeme hnumber
    rw [← hequal, Cut.after, List.cons_append, startsNumeral, isDigit_of_isNameStart hstart]
      at hnumeral
    · cases hnumeral
    · exact fun _ _ hc => absurd hc (ne_dot_of_isNameChar (isNameChar_of_isNameStart hstart))
  · rw [Cut.after, List.cons_append, isName, hstart, hends] at hname
    cases hname
  · rw [isNameStart_of_spelling hsymbol.symm] at hstart
    cases hstart

theorem spelling_of_ofPair? {c d : Char} {symbol : Symbol}
    (hsymbol : Symbol.ofPair? c d = some symbol) : symbol.spelling.toList = [c, d] := by
  simp only [Symbol.ofPair?] at hsymbol
  split at hsymbol <;> cases hsymbol <;> rfl

theorem spelling_of_ofChar? {c : Char} {symbol : Symbol}
    (hsymbol : Symbol.ofChar? c = some symbol) : symbol.spelling.toList = [c] := by
  simp only [Symbol.ofChar?] at hsymbol
  split at hsymbol <;> cases hsymbol <;> rfl

/-- A symbol is cut with two characters, or with one if these two make none. -/
theorem scanSymbol_cases {offset : Nat} {c : Char} {text : List Char} {kind : Kind} {cut : Cut}
    (hscan : scanSymbol offset c text = .ok (kind, cut)) :
    ∃ symbol, kind = .symbol symbol ∧ symbol.spelling.toList = cut.lexeme ∧
      ((∃ d tail, text = d :: tail ∧ cut = ⟨[c, d], tail⟩) ∨
        cut = ⟨[c], text⟩ ∧ ∀ d ∈ text.head?, Symbol.ofPair? c d = none) := by
  rw [scanSymbol] at hscan
  split at hscan
  next symbol hpair =>
    cases hscan
    obtain ⟨d, hhead, hsymbol⟩ := Option.bind_eq_some_iff.1 hpair
    obtain ⟨tail, rfl⟩ := List.head?_eq_some_iff.1 hhead
    exact ⟨symbol, rfl, spelling_of_ofPair? hsymbol, Or.inl ⟨d, tail, rfl, rfl⟩⟩
  next hpair =>
    split at hscan
    next symbol hsymbol =>
      cases hscan
      exact ⟨symbol, rfl, spelling_of_ofChar? hsymbol,
        Or.inr ⟨rfl, fun d hd => Option.bind_eq_none_iff.1 hpair d hd⟩⟩
    next => cases hscan

theorem length_spelling_le (symbol : Symbol) : symbol.spelling.toList.length ≤ 2 := by
  obtain ⟨c, hspelling, -⟩ | ⟨c, d, hspelling, -⟩ := symbol.spelling_cases <;> rw [hspelling]
  · exact Nat.le_succ 1
  · exact Nat.le_refl 2

/-- Two characters that are a symbol make it. -/
theorem ofPair?_of_spelling {symbol : Symbol} {c d : Char}
    (hspelling : symbol.spelling.toList = [c, d]) : Symbol.ofPair? c d = some symbol := by
  obtain ⟨first, hfirst, -⟩ | ⟨first, second, hpair, hsymbol⟩ := symbol.spelling_cases
  · rw [hfirst] at hspelling
    cases hspelling
  · rw [hpair] at hspelling
    cases hspelling
    exact hsymbol

/-- A symbol of two characters is preferred to one of one, and no symbol is longer. -/
theorem symbol_isLongest {offset : Nat} {c : Char} {text : List Char} {kind : Kind} {cut : Cut}
    (hnumeral : startsNumeral (c :: text) = false) (hname : isNameStart c = false)
    (hscan : scanSymbol offset c text = .ok (kind, cut)) : IsLongest cut := by
  rintro more hmore hne ⟨longerKind, hextended⟩
  obtain ⟨symbol, -, -, hcut⟩ := scanSymbol_cases hscan
  have happend : cut.lexeme ++ cut.rest = c :: text := by
    obtain ⟨d, tail, rfl, rfl⟩ | ⟨rfl, -⟩ := hcut <;> rfl
  have hlexeme : ∃ tail, cut.lexeme = c :: tail := by
    obtain ⟨d, tail, -, rfl⟩ | ⟨rfl, -⟩ := hcut
    · exact ⟨[d], rfl⟩
    · exact ⟨[], rfl⟩
  obtain ⟨tail, htail⟩ := hlexeme
  have hstart : startsNumeral (cut.lexeme ++ more) = false := by
    rw [startsNumeral_extended (by rw [htail]; exact List.cons_ne_nil _ _) hmore hne, happend,
      hnumeral]
  obtain ⟨number, hnumber, hequal, -⟩ | ⟨hword, -⟩ | ⟨longer, hlonger, -⟩ := hextended.classes
  · rw [hequal, startsNumeral_lexeme hnumber] at hstart
    cases hstart
  · rw [htail, List.cons_append, isName, hname] at hword
    cases hword
  · obtain ⟨first, more, rfl⟩ := List.exists_cons_of_ne_nil hne
    have hlength := length_spelling_le longer
    rw [← hlonger, List.length_append, List.length_cons] at hlength
    obtain ⟨d, tail, -, rfl⟩ | ⟨rfl, hpair⟩ := hcut
    · rw [List.length_cons, List.length_cons] at hlength
      omega
    · -- One character and one more are a symbol, which would have been cut.
      obtain rfl : more = [] := by
        rw [List.length_singleton] at hlength
        exact List.eq_nil_of_length_eq_zero (by omega)
      have hhead : first ∈ text.head? := by
        obtain ⟨rest, rfl⟩ := hmore
        rfl
      have hnone := hpair first hhead
      rw [ofPair?_of_spelling hlonger.symm] at hnone
      cases hnone

/-- What is scanned at the head of a text, in the order in which it is tried. -/
theorem scan_cases {offset : Nat} {c : Char} {text : List Char} {kind : Kind} {cut : Cut}
    (hscan : scan offset c text = .ok (kind, cut)) :
    (startsNumeral (c :: text) = true ∧ cut = numeral (c :: text) ∧
        kind = .number (numeralValue cut.lexeme) ∧ cut.rest.head?.any isNameChar = false) ∨
      (isNameStart c = true ∧ cut = (nameTail text).after c ∧ kind = nameKind cut.lexeme) ∨
        (startsNumeral (c :: text) = false ∧ isNameStart c = false ∧
          scanSymbol offset c text = .ok (kind, cut)) := by
  rw [scan] at hscan
  split at hscan
  next hstart =>
    dsimp only [scanNumber] at hscan
    split at hscan
    · cases hscan
    · split at hscan <;> cases hscan
      exact Or.inl ⟨hstart, rfl, rfl, Bool.eq_false_iff.2 ‹_›⟩
  next hnumeral =>
    split at hscan
    next hname =>
      cases hscan
      exact Or.inr (Or.inl ⟨hname, rfl, rfl⟩)
    next hname =>
      exact Or.inr (Or.inr ⟨Bool.eq_false_iff.2 hnumeral, Bool.eq_false_iff.2 hname, hscan⟩)

/-- What is scanned is a lexeme of its kind. -/
theorem hasLexeme_of_scan {offset : Nat} {c : Char} {text : List Char} {kind : Kind} {cut : Cut}
    (hscan : scan offset c text = .ok (kind, cut)) : kind.HasLexeme cut.lexeme := by
  obtain ⟨hstart, rfl, rfl, -⟩ | ⟨hname, rfl, rfl⟩ | ⟨-, -, hsymbol⟩ := scan_cases hscan
  · obtain ⟨number, hwritten, hlexeme⟩ := numeral_isWritten hstart
    rw [hlexeme, numeralValue_isWritten hwritten]
    exact .number hwritten
  · refine hasLexeme_nameKind ?_
    rw [Cut.after, isName, hname, endsName_nameTail, Bool.true_and]
  · obtain ⟨symbol, rfl, hspelling, -⟩ := scanSymbol_cases hsymbol
    rw [← hspelling]
    exact .symbol symbol

/-- What is scanned is the longest lexeme that stands there. -/
theorem isLongest_of_scan {offset : Nat} {c : Char} {text : List Char} {kind : Kind} {cut : Cut}
    (hscan : scan offset c text = .ok (kind, cut)) : IsLongest cut := by
  obtain ⟨hstart, rfl, -, hsuffix⟩ | ⟨hname, rfl, -⟩ | ⟨hnumeral, hname, hsymbol⟩ :=
    scan_cases hscan
  · exact numeral_isLongest hstart hsuffix
  · exact name_isLongest hname
  · exact symbol_isLongest hnumeral hname hsymbol

end Token

end MotionScript
