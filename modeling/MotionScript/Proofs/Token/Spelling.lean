import MotionScript.Proofs.Number.Digits
import MotionScript.Proofs.Token.Stream
/-!
# Scanning what is spelled

A symbol, a dotted name or a numeral at the head of a text is scanned as one token if the text
behind it does not go on with it.  What a text is scanned as does not depend on where in the source
it starts, so texts that are put behind one another are scanned as the tokens of their parts.
-/

namespace MotionScript

/-- A symbol is spelled with one character or with two. -/
theorem Symbol.spelling_cases (symbol : Symbol) :
    (∃ c, symbol.spelling.toList = [c] ∧ Symbol.ofChar? c = some symbol) ∨
      ∃ c d, symbol.spelling.toList = [c, d] ∧ Symbol.ofPair? c d = some symbol := by
  cases symbol <;> first | exact Or.inl ⟨_, rfl, rfl⟩ | exact Or.inr ⟨_, _, rfl, rfl⟩

namespace Token

/-- Wherever the text starts, it has tokens of these kinds. -/
def Scans (text : List Char) (kinds : List Kind) : Prop :=
  ∀ offset, ∃ tokens, scanAll offset text = .ok tokens ∧ tokens.map kind = kinds

/-- No symbol takes the head of the text as its second character. -/
def Apart (text : List Char) : Prop :=
  ∀ c ∈ text.head?, c ∉ ['=', '&', '|']

/-- No lexeme before the text goes on with it. -/
def Closes (text : List Char) : Prop :=
  ∀ c ∈ text.head?, c ∉ ['=', '&', '|', '.'] ∧ isNameChar c = false

theorem Closes.apart {text : List Char} (hcloses : Closes text) : Apart text := by
  intro c hc hmem
  exact (hcloses c hc).1 (List.mem_append_left ['.'] hmem)

theorem Closes.nil : Closes [] := nofun

/-! ### Classes of characters -/

theorem isDigit_of_isNameStart {c : Char} (hstart : isNameStart c = true) : c.isDigit = false := by
  obtain hletter | hunderscore := Bool.or_eq_true_iff.1 hstart
  · simp only [Char.isAlpha, Char.isUpper, Char.isLower, Bool.or_eq_true, Bool.and_eq_true,
      decide_eq_true_eq] at hletter
    simp only [Char.isDigit, Bool.and_eq_false_iff, decide_eq_false_iff_not]
    grind
  · rw [beq_iff_eq.1 hunderscore]
    rfl

theorem isBlank_of_isNameChar {c : Char} (hchar : isNameChar c = true) : isBlank c = false := by
  apply Bool.eq_false_iff.2
  intro hblank
  simp only [isBlank, Bool.or_eq_true, beq_iff_eq] at hblank
  obtain (((rfl | rfl) | rfl) | rfl) | rfl := hblank <;> cases hchar

theorem isNameChar_of_isDigit {c : Char} (hdigit : c.isDigit = true) : isNameChar c = true := by
  rw [isNameChar, Char.isAlphanum, hdigit, Bool.or_true, Bool.true_or]

theorem isNameChar_of_isNameStart {c : Char} (hstart : isNameStart c = true) :
    isNameChar c = true := by
  obtain hletter | hunderscore := Bool.or_eq_true_iff.1 hstart
  · rw [isNameChar, Char.isAlphanum, hletter, Bool.true_or, Bool.true_or]
  · rw [isNameChar, hunderscore, Bool.or_true]

theorem ne_dot_of_isNameChar {c : Char} (hchar : isNameChar c = true) : c ≠ '.' := by
  rintro rfl
  cases hchar

theorem not_mem_of_isNameChar {c : Char} (hchar : isNameChar c = true) :
    c ∉ ['=', '&', '|'] := by
  intro hmem
  simp only [List.mem_cons, List.not_mem_nil, or_false] at hmem
  obtain rfl | rfl | rfl := hmem <;> cases hchar

/-! ### One token after another -/

theorem Scans.nil : Scans [] [.endOfInput] := by
  intro offset
  rw [scanAll]
  exact ⟨_, rfl, rfl⟩

theorem Scans.blank {c : Char} {text : List Char} {kinds : List Kind} (htext : Scans text kinds)
    (hblank : isBlank c = true) : Scans (c :: text) kinds := by
  intro offset
  rw [scanAll, if_pos hblank]
  exact htext _

/-- One lexeme is scanned in front of all others. -/
theorem Scans.lexeme {c : Char} {text lexeme rest : List Char} {kind : Kind} {kinds : List Kind}
    (hblank : isBlank c = false)
    (hscan : ∀ offset, scan offset c text = .ok (kind, ⟨lexeme, rest⟩))
    (hrest : Scans rest kinds) : Scans (c :: text) (kind :: kinds) := by
  intro offset
  obtain ⟨tokens, htokens, hkinds⟩ := hrest (offset + byteWidth lexeme)
  refine ⟨⟨kind, offset, offset + byteWidth lexeme⟩ :: tokens, ?_, ?_⟩
  · rw [scanAll, if_neg (by rw [hblank]; exact Bool.false_ne_true)]
    split
    next error herror =>
      rw [hscan] at herror
      cases herror
    next found cut hfound =>
      rw [hscan] at hfound
      cases hfound
      simp only [htokens]
      rfl
  · rw [List.map_cons, hkinds]

/-! ### Symbols -/

theorem scan_eq_scanSymbol {symbol : Symbol} {c : Char} {text : List Char}
    (hspelling : symbol.spelling.toList = c :: text) :
    isBlank c = false ∧ ∀ offset rest, scan offset c rest = scanSymbol offset c rest := by
  cases symbol <;> cases hspelling <;> exact ⟨rfl, fun _ _ => rfl⟩

theorem ofPair?_eq_none {c : Char} {text : List Char} (hapart : Apart text) :
    text.head?.bind (Symbol.ofPair? c) = none := by
  cases text with
  | nil => rfl
  | cons d text =>
      have hsecond := hapart d rfl
      rw [List.head?_cons, Option.bind_some]
      simp only [Symbol.ofPair?]
      split <;> first | rfl | exact absurd (by decide) hsecond

/-- A symbol is scanned as itself where what follows does not make it longer. -/
theorem Scans.symbol {symbol : Symbol} {text : List Char} {kinds : List Kind}
    (htext : Scans text kinds) (hapart : Apart text) :
    Scans (symbol.spelling.toList ++ text) (.symbol symbol :: kinds) := by
  obtain ⟨c, hspelling, hsymbol⟩ | ⟨c, d, hspelling, hsymbol⟩ := symbol.spelling_cases
  · obtain ⟨hblank, hsymbols⟩ := scan_eq_scanSymbol hspelling
    have hscan (offset : Nat) : scan offset c text = .ok (.symbol symbol, ⟨[c], text⟩) := by
      simp only [hsymbols, scanSymbol, ofPair?_eq_none hapart, hsymbol]
    rw [hspelling]
    exact htext.lexeme hblank hscan
  · obtain ⟨hblank, hsymbols⟩ := scan_eq_scanSymbol hspelling
    have hscan (offset : Nat) : scan offset c (d :: text) =
        .ok (.symbol symbol, ⟨[c, d], text⟩) := by
      simp only [hsymbols, scanSymbol, List.head?_cons, Option.bind_some, hsymbol]
      rfl
    rw [hspelling]
    exact htext.lexeme hblank hscan

/-! ### Names -/

/-- Whether a text that follows characters of a name is the end of a name: behind a dot a character
stands that a name may start with. -/
def endsName : List Char → Bool
  | '.' :: c :: text => isNameStart c && endsName text
  | c :: text => isNameChar c && endsName text
  | [] => true

/-- Whether a text is a name, which has at least one word, and dots between its words. -/
def isName : List Char → Bool
  | c :: text => isNameStart c && endsName text
  | [] => false

theorem nameTail_of_ne_dot {c : Char} {text : List Char} (hdot : c ≠ '.') :
    nameTail (c :: text) =
      if isNameChar c then (nameTail text).after c else ⟨[], c :: text⟩ := by
  rw [nameTail]
  exact fun _ _ hc => absurd hc hdot

/-- A name ends where it is closed. -/
theorem nameTail_append_of_closes {text rest : List Char} (hends : endsName text = true)
    (hcloses : Closes rest) : nameTail (text ++ rest) = ⟨text, rest⟩ := by
  fun_induction endsName text with
  | case1 c text ih =>
      rw [Bool.and_eq_true] at hends
      rw [List.cons_append, List.cons_append, nameTail, if_pos hends.1, ih hends.2]
      rfl
  | case2 c text hdot ih =>
      rw [Bool.and_eq_true] at hends
      rw [List.cons_append, nameTail_of_ne_dot (ne_dot_of_isNameChar hends.1), if_pos hends.1,
        ih hends.2]
      rfl
  | case3 =>
      cases rest with
      | nil => rfl
      | cons c rest =>
          obtain ⟨hmem, hchar⟩ := hcloses c rfl
          have hdot : c ≠ '.' := by
            rintro rfl
            exact hmem (by decide)
          rw [List.nil_append, nameTail_of_ne_dot hdot, hchar, if_neg Bool.false_ne_true]

/-- Behind a word and a dot stands a name. -/
theorem endsName_append {word name : List Char} (hword : ∀ c ∈ word, isNameChar c = true) :
    endsName (word ++ '.' :: name) = isName name := by
  induction word with
  | nil => cases name <;> rfl
  | cons c word ih =>
      obtain ⟨hchar, hchars⟩ := List.forall_mem_cons.1 hword
      rw [List.cons_append, endsName, hchar, ih hchars]
      · rfl
      · exact fun _ _ hc => absurd hc (ne_dot_of_isNameChar hchar)

/-- A name without dots and a dot may stand before any name, and before nothing else. -/
theorem isName_append {word name : List Char} (hstart : isName word = true)
    (hword : ∀ c ∈ word, isNameChar c = true) :
    isName (word ++ '.' :: name) = isName name := by
  cases word with
  | nil => cases hstart
  | cons c word =>
      rw [isName, Bool.and_eq_true] at hstart
      rw [List.cons_append, isName, hstart.1, Bool.true_and]
      exact endsName_append (List.forall_mem_cons.1 hword).2

/-- A path of a scope is a name exactly where what it names is one. -/
theorem isName_of_spelledBy {scope : Scope} {name path : String}
    (hpath : scope.SpelledBy name path) : isName path.toList = isName name.toList := by
  have hword {word : String} (hstart : isName word.toList = true)
      (hchars : word.toList.all isNameChar = true) :
      isName (word ++ "." ++ name).toList = isName name.toList := by
    rw [String.toList_append, String.toList_append, List.append_assoc]
    exact isName_append hstart (List.all_eq_true.1 hchars)
  obtain rfl | rfl := hpath
  · exact hword (by cases scope <;> rfl) (by cases scope <;> rfl)
  · exact hword (by cases scope <;> rfl) (by cases scope <;> rfl)

/-- A name is scanned as itself in front of what closes it. -/
theorem Scans.name {name text : List Char} {kinds : List Kind} (htext : Scans text kinds)
    (hname : isName name = true) (hcloses : Closes text) :
    Scans (name ++ text) (nameKind name :: kinds) := by
  cases name with
  | nil => cases hname
  | cons c tail =>
      rw [isName, Bool.and_eq_true] at hname
      obtain ⟨hstart, hends⟩ := hname
      have hnumeral : startsNumeral (c :: (tail ++ text)) = false := by
        rw [startsNumeral, isDigit_of_isNameStart hstart]
        exact fun _ _ hc => absurd hc (ne_dot_of_isNameChar (isNameChar_of_isNameStart hstart))
      have hscan (offset : Nat) :
          scan offset c (tail ++ text) = .ok (nameKind (c :: tail), ⟨c :: tail, text⟩) := by
        rw [scan, hnumeral, if_neg Bool.false_ne_true, if_pos hstart,
          nameTail_append_of_closes hends hcloses]
        rfl
      exact htext.lexeme (isBlank_of_isNameChar (isNameChar_of_isNameStart hstart)) hscan

theorem Scans.path {path : String} {text : List Char} {kinds : List Kind}
    (htext : Scans text kinds) (hname : isName path.toList = true) (hdot : '.' ∈ path.toList)
    (hcloses : Closes text) : Scans (path.toList ++ text) (.path path :: kinds) := by
  have hkind : nameKind path.toList = .path path := by
    rw [nameKind, if_pos (List.contains_iff_mem.2 hdot), String.ofList_toList]
  rw [← hkind]
  exact htext.name hname hcloses

/-! ### Numerals -/

open Decimal (Numeral)

theorem run_append_of_all {accepts : Char → Bool} {lexeme rest : List Char}
    (hlexeme : ∀ c ∈ lexeme, accepts c = true) (hrest : ∀ c ∈ rest.head?, accepts c = false) :
    run accepts (lexeme ++ rest) = ⟨lexeme, rest⟩ := by
  rw [run, List.takeWhile_append_of_pos hlexeme, List.dropWhile_append_of_pos hlexeme]
  cases rest with
  | nil => simp
  | cons c rest => simp [hrest c rfl]

theorem Closes.not_isDigit {text : List Char} (hcloses : Closes text) :
    ∀ c ∈ text.head?, c.isDigit = false := by
  intro c hc
  apply Bool.eq_false_iff.2
  intro hdigit
  have hchar := (hcloses c hc).2
  rw [isNameChar_of_isDigit hdigit] at hchar
  cases hchar

/-- A numeral ends where it is closed. -/
theorem numeral_append_of_closes {number : Numeral} {rest : List Char}
    (hwhole : ∀ c ∈ number.whole, c.isDigit = true)
    (hfraction : ∀ c ∈ number.fraction.getD [], c.isDigit = true) (hcloses : Closes rest) :
    numeral (number.lexeme ++ rest) = ⟨number.lexeme, rest⟩ := by
  obtain ⟨whole, fraction⟩ := number
  cases fraction with
  | none =>
      have hwhole : run Char.isDigit (whole ++ rest) = ⟨whole, rest⟩ :=
        run_append_of_all hwhole hcloses.not_isDigit
      simp only [Numeral.lexeme, List.append_nil, numeral, hwhole]
      split
      next tail =>
        have hdot := (hcloses '.' rfl).1
        exact absurd (by decide) hdot
      next => rfl
  | some fraction =>
      have hwhole : run Char.isDigit (whole ++ '.' :: (fraction ++ rest)) =
          ⟨whole, '.' :: (fraction ++ rest)⟩ :=
        run_append_of_all hwhole (by rintro c ⟨rfl⟩; rfl)
      have hfraction : run Char.isDigit (fraction ++ rest) = ⟨fraction, rest⟩ :=
        run_append_of_all hfraction hcloses.not_isDigit
      simp only [Numeral.lexeme, List.append_assoc, List.cons_append, numeral, hwhole, hfraction]

/-- The value of a numeral is that of its decimal. -/
theorem numeralValue_lexeme {number : Numeral} (hwhole : ∀ c ∈ number.whole, c.isDigit = true) :
    numeralValue number.lexeme = number.decimal.toSingle := by
  obtain ⟨whole, fraction⟩ := number
  have hbehind : ∀ behind : List Char, (∀ c ∈ behind.head?, c.isDigit = false) →
      numeralValue (whole ++ behind) = (Decimal.ofDigits whole behind.tail).toSingle := by
    intro behind hbehind
    have htaken : (whole ++ behind).takeWhile Char.isDigit = whole :=
      congrArg Cut.lexeme (run_append_of_all hwhole hbehind)
    simp only [numeralValue, htaken, ← List.drop_drop, List.drop_left, List.drop_one]
  cases fraction with
  | none => exact hbehind [] nofun
  | some fraction => exact hbehind ('.' :: fraction) (by rintro c ⟨rfl⟩; rfl)

/-- A numeral with a finite value is scanned as that number. -/
theorem scan_numeral {number : Numeral} {c : Char} {lexeme rest : List Char}
    (hwhole : ∀ c ∈ number.whole, c.isDigit = true)
    (hfraction : ∀ c ∈ number.fraction.getD [], c.isDigit = true)
    (hfinite : number.decimal.toSingle.isFinite = true) (hlexeme : number.lexeme = c :: lexeme)
    (hstart : startsNumeral (c :: (lexeme ++ rest)) = true) (hcloses : Closes rest)
    (offset : Nat) : scan offset c (lexeme ++ rest) =
      .ok (.number number.decimal.toSingle, ⟨c :: lexeme, rest⟩) := by
  have hnumeral := numeral_append_of_closes hwhole hfraction hcloses
  have hvalue := numeralValue_lexeme hwhole
  have hsuffix : rest.head?.any isNameChar = false := by
    cases rest with
    | nil => rfl
    | cons d rest => exact (hcloses d rfl).2
  rw [hlexeme] at hnumeral hvalue
  rw [scan, if_pos hstart]
  simp only [scanNumber, ← List.cons_append, hnumeral, hvalue, hsuffix, hfinite]
  rfl

theorem startsNumeral_of_isDigit {c : Char} (hdigit : c.isDigit = true) (text : List Char) :
    startsNumeral (c :: text) = true := by
  rw [startsNumeral, hdigit]
  exact fun _ _ hc => absurd hc (ne_dot_of_isNameChar (isNameChar_of_isDigit hdigit))

/-- A plain numeral is scanned as its number in front of what closes it. -/
theorem Scans.number {number : Numeral} {text : List Char} {kinds : List Kind}
    (htext : Scans text kinds) (hplain : number.Plain)
    (hfinite : number.decimal.toSingle.isFinite = true) (hcloses : Closes text) :
    Scans (number.lexeme ++ text) (.number number.decimal.toSingle :: kinds) := by
  obtain ⟨c, lexeme, hlexeme, hdigit⟩ := hplain.exists_digit
  rw [hlexeme]
  exact htext.lexeme (isBlank_of_isNameChar (isNameChar_of_isDigit hdigit))
    (scan_numeral hplain.whole_digits hplain.fraction_digits hfinite hlexeme
      (startsNumeral_of_isDigit hdigit _) hcloses)

end Token

end MotionScript
