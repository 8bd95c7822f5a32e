import MotionScript.Number.Reader
import MotionScript.Proofs.Token.Lexemes
/-!
# Lexemes and their kinds

Lexemes are numerals, words, words joined by dots, and the spellings of symbols.  Each is a token of
one kind, so that the text of a token determines its kind; the value of a numeral is the number that
its text is read as.
-/

namespace MotionScript

/-- Only digits around a point, of which there is at least one. -/
structure Decimal.Numeral.IsWritten (number : Decimal.Numeral) : Prop where
  whole_digits : ∀ c ∈ number.whole, c.isDigit = true
  fraction_digits : ∀ c ∈ number.fraction.getD [], c.isDigit = true
  ne_nil : number.whole ≠ [] ∨ number.fraction.getD [] ≠ []

namespace Token

open Decimal (Numeral)

/-- A name without dots. -/
def IsWord : List Char → Prop
  | c :: text => isNameStart c = true ∧ ∀ d ∈ text, isNameChar d = true
  | [] => False

/-- A word, and more words with a dot before each. -/
def joined (first : List Char) (others : List (List Char)) : List Char :=
  first ++ others.flatMap ('.' :: ·)

/-- A lexeme and the kind of token that it is. -/
inductive Kind.HasLexeme : Kind → List Char → Prop where
  | number {number : Numeral} (hwritten : number.IsWritten) :
      HasLexeme (.number number.decimal.toSingle) number.lexeme
  | identifier {word : List Char} (hword : IsWord word) :
      HasLexeme (.identifier (String.ofList word)) word
  | path {first : List Char} {others : List (List Char)} (hfirst : IsWord first)
      (hothers : ∀ word ∈ others, IsWord word) (hne : others ≠ []) :
      HasLexeme (.path (String.ofList (joined first others))) (joined first others)
  | symbol (symbol : Symbol) : HasLexeme (.symbol symbol) symbol.spelling.toList

/-- Whether a text may be a token. -/
def IsLexeme (text : List Char) : Prop :=
  ∃ kind : Kind, kind.HasLexeme text

/-! ### Words -/

theorem IsWord.isNameChar {word : List Char} (hword : IsWord word) :
    ∀ c ∈ word, isNameChar c = true := by
  cases word with
  | nil => exact hword.elim
  | cons c word => exact List.forall_mem_cons.2 ⟨isNameChar_of_isNameStart hword.1, hword.2⟩

theorem endsName_of_isNameChar {text : List Char} (htext : ∀ c ∈ text, isNameChar c = true) :
    endsName text = true := by
  induction text with
  | nil => rfl
  | cons c text ih =>
      obtain ⟨hchar, hchars⟩ := List.forall_mem_cons.1 htext
      rw [endsName, hchar, ih hchars]
      · rfl
      · exact fun _ _ hc => absurd hc (ne_dot_of_isNameChar hchar)

theorem IsWord.isName {word : List Char} (hword : IsWord word) : isName word = true := by
  cases word with
  | nil => exact hword.elim
  | cons c word => rw [Token.isName, hword.1, endsName_of_isNameChar hword.2, Bool.true_and]

theorem isName_joined {first : List Char} {others : List (List Char)} (hfirst : IsWord first)
    (hothers : ∀ word ∈ others, IsWord word) : isName (joined first others) = true := by
  induction others generalizing first with
  | nil => rw [joined, List.flatMap_nil, List.append_nil, hfirst.isName]
  | cons word others ih =>
      obtain ⟨hword, hwords⟩ := List.forall_mem_cons.1 hothers
      rw [joined, List.flatMap_cons, List.cons_append,
        isName_append hfirst.isName hfirst.isNameChar]
      exact ih hword hwords

/-- The rest of a name is the rest of a word, and words with a dot before each. -/
theorem exists_words {text : List Char} (hends : endsName text = true) :
    ∃ tail others, text = joined tail others ∧ (∀ c ∈ tail, isNameChar c = true) ∧
      ∀ word ∈ others, IsWord word := by
  fun_induction endsName text with
  | case1 c text ih =>
      rw [Bool.and_eq_true] at hends
      obtain ⟨tail, others, rfl, htail, hothers⟩ := ih hends.2
      exact ⟨[], (c :: tail) :: others, rfl, List.forall_mem_nil _,
        List.forall_mem_cons.2 ⟨⟨hends.1, htail⟩, hothers⟩⟩
  | case2 c text _ ih =>
      rw [Bool.and_eq_true] at hends
      obtain ⟨tail, others, rfl, htail, hothers⟩ := ih hends.2
      exact ⟨c :: tail, others, rfl, List.forall_mem_cons.2 ⟨hends.1, htail⟩, hothers⟩
  | case3 => exact ⟨[], [], rfl, List.forall_mem_nil _, List.forall_mem_nil _⟩

theorem point_mem_joined_iff {first : List Char} {others : List (List Char)}
    (hfirst : ∀ c ∈ first, isNameChar c = true) : '.' ∈ joined first others ↔ others ≠ [] := by
  have hpoint : '.' ∉ first := fun hmem => absurd rfl (ne_dot_of_isNameChar (hfirst _ hmem))
  cases others with
  | nil => simpa [joined] using hpoint
  | cons word others => simp [joined]

/-- A name of several words is a path, and a single word an identifier. -/
theorem nameKind_joined {first : List Char} {others : List (List Char)} (hfirst : IsWord first) :
    nameKind (joined first others) =
      if others = [] then .identifier (String.ofList first)
      else .path (String.ofList (joined first others)) := by
  have hpoint : '.' ∈ joined first others ↔ others ≠ [] := point_mem_joined_iff hfirst.isNameChar
  by_cases hnil : others = []
  · have hplain : (joined first others).contains '.' ≠ true := by
      rw [ne_eq, List.contains_iff_mem, hpoint]
      exact not_not.2 hnil
    rw [if_pos hnil, nameKind, if_neg hplain, hnil, joined, List.flatMap_nil, List.append_nil]
  · rw [if_neg hnil, nameKind, if_pos (List.contains_iff_mem.2 (hpoint.2 hnil))]

/-- A name is a lexeme. -/
theorem hasLexeme_nameKind {text : List Char} (hname : isName text = true) :
    (nameKind text).HasLexeme text := by
  cases text with
  | nil => cases hname
  | cons c text =>
      rw [isName, Bool.and_eq_true] at hname
      obtain ⟨tail, others, rfl, htail, hothers⟩ := exists_words hname.2
      have hfirst : IsWord (c :: tail) := ⟨hname.1, htail⟩
      change (nameKind (joined (c :: tail) others)).HasLexeme (joined (c :: tail) others)
      rw [nameKind_joined hfirst]
      split
      next hnil =>
        rw [hnil, joined, List.flatMap_nil, List.append_nil]
        exact .identifier hfirst
      next hne => exact .path hfirst hothers hne

/-! ### Numerals -/

section Numerals

variable {number : Numeral}

/-- What is written as a numeral starts like one. -/
theorem startsNumeral_lexeme (hwritten : number.IsWritten) :
    startsNumeral number.lexeme = true := by
  obtain ⟨whole, fraction⟩ := number
  cases whole with
  | cons c whole =>
      have hdigit := hwritten.whole_digits c List.mem_cons_self
      change startsNumeral (c :: _) = true
      rw [startsNumeral, hdigit]
      exact fun _ _ hc => absurd hc (ne_dot_of_isNameChar (isNameChar_of_isDigit hdigit))
  | nil =>
      have hne := hwritten.ne_nil.resolve_left (not_not.2 rfl)
      obtain _ | _ | ⟨d, fraction⟩ := fraction
      · exact absurd rfl hne
      · exact absurd rfl hne
      · exact hwritten.fraction_digits d List.mem_cons_self

/-- A numeral is made of digits and of one point at most. -/
theorem forall_mem_lexeme (hwritten : number.IsWritten) :
    ∀ c ∈ number.lexeme, c.isDigit = true ∨ c = '.' := by
  obtain ⟨whole, fraction⟩ := number
  intro c hmem
  obtain hwhole | hfraction := List.mem_append.1 hmem
  · exact Or.inl (hwritten.whole_digits c hwhole)
  · match fraction with
    | none => cases hfraction
    | some fraction =>
      exact (List.mem_cons.1 hfraction).elim Or.inr
        fun hdigits => Or.inl (hwritten.fraction_digits c hdigits)

/-- A numeral has one point if it has a fraction, and else none. -/
theorem count_point_lexeme (hwhole : ∀ c ∈ number.whole, c.isDigit = true)
    (hfraction : ∀ c ∈ number.fraction.getD [], c.isDigit = true) :
    number.lexeme.count '.' = if number.fraction = none then 0 else 1 := by
  have hnone {digits : List Char} (hdigits : ∀ c ∈ digits, c.isDigit = true) :
      digits.count '.' = 0 := by
    apply List.count_eq_zero.2
    intro hmem
    cases hdigits _ hmem
  obtain ⟨whole, fraction⟩ := number
  cases fraction with
  | none => simp [Numeral.lexeme, hnone hwhole]
  | some fraction =>
      have hdigits : fraction.count '.' = 0 := hnone hfraction
      simp [Numeral.lexeme, hnone hwhole, hdigits]

theorem run_rest_head (text : List Char) :
    ∀ c ∈ (run Char.isDigit text).rest.head?, c.isDigit = false := by
  intro c hc
  have hhead := List.head?_dropWhile_not Char.isDigit text
  rw [Option.mem_def] at hc
  rw [run] at hc
  rwa [hc] at hhead

/-- What is cut as a numeral: digits, and maybe a point with digits behind it.  Behind that stands
no digit and, if there is no point yet, no point. -/
theorem numeral_parts (text : List Char) :
    ∃ number : Numeral, (numeral text).lexeme = number.lexeme ∧
      (∀ c ∈ number.whole, c.isDigit = true) ∧
      (∀ c ∈ number.fraction.getD [], c.isDigit = true) ∧
      (∀ c ∈ (numeral text).rest.head?, c.isDigit = false) ∧
      (number.fraction = none → ∀ c ∈ (numeral text).rest.head?, c ≠ '.') := by
  have hdigits (text : List Char) : ∀ c ∈ (run Char.isDigit text).lexeme, c.isDigit = true :=
    fun c hmem => List.mem_takeWhile_imp hmem
  dsimp only [numeral]
  split
  next tail _ =>
    exact ⟨⟨(run Char.isDigit text).lexeme, some (run Char.isDigit tail).lexeme⟩, rfl,
      hdigits text, hdigits tail, run_rest_head tail, nofun⟩
  next hpoint =>
    refine ⟨⟨(run Char.isDigit text).lexeme, none⟩, (List.append_nil _).symm, hdigits text, nofun,
      run_rest_head text, ?_⟩
    rintro _ c hc rfl
    obtain ⟨tail, htail⟩ := List.head?_eq_some_iff.1 hc
    exact hpoint tail htail

/-- Where a numeral starts, a digit is cut. -/
theorem numeral_isWritten {text : List Char} (hstart : startsNumeral text = true) :
    ∃ number : Numeral, number.IsWritten ∧ (numeral text).lexeme = number.lexeme := by
  obtain ⟨⟨whole, fraction⟩, hlexeme, hwhole, hfraction, hrest, -⟩ := numeral_parts text
  refine ⟨⟨whole, fraction⟩, ⟨hwhole, hfraction, ?_⟩, hlexeme⟩
  by_contra hnone
  rw [not_or, not_not, not_not] at hnone
  obtain ⟨rfl, hnil⟩ := hnone
  have hne := numeral_lexeme_ne_nil hstart
  have happend := numeral_append text
  match fraction, hnil with
  | none, _ => exact hne hlexeme
  | some [], _ =>
    -- The point stands alone, so the digit that makes it a numeral was left behind.
    rw [hlexeme] at happend
    rw [← happend] at hstart
    cases htail : (numeral text).rest with
    | nil => rw [htail] at hstart; cases hstart
    | cons c tail =>
        rw [htail] at hstart hrest
        have hdigit : c.isDigit = true := hstart
        rw [hrest c rfl] at hdigit
        cases hdigit

theorem numeralValue_isWritten (hwritten : number.IsWritten) :
    numeralValue number.lexeme = number.decimal.toSingle :=
  numeralValue_lexeme hwritten.whole_digits

/-! ### Numerals are read as numbers -/

/-- A written numeral is read as its decimal. -/
theorem readDecimal?_lexeme (hwritten : number.IsWritten) :
    Single.readDecimal? number.lexeme = some number.decimal.toSingle := by
  obtain ⟨whole, fraction⟩ := number
  have hwhole : ∀ c ∈ whole, c.isDigit = true := hwritten.whole_digits
  cases fraction with
  | none =>
      have hne : whole ≠ [] := hwritten.ne_nil.resolve_right (not_not.2 rfl)
      simp [Numeral.lexeme, Single.readDecimal?, List.takeWhile_eq_self_iff.2 hwhole, hne,
        Single.readExponent?, Numeral.decimal]
  | some fraction =>
      have hfraction : ∀ c ∈ fraction, c.isDigit = true := hwritten.fraction_digits
      have htaken : (whole ++ '.' :: fraction).takeWhile Char.isDigit = whole := by
        simp [List.takeWhile_append_of_pos hwhole]
      have hne : whole = [] → fraction ≠ [] := fun hnil =>
        hwritten.ne_nil.resolve_left (not_not.2 hnil)
      simp [Numeral.lexeme, Single.readDecimal?, htaken, List.takeWhile_eq_self_iff.2 hfraction,
        List.dropWhile_eq_nil_iff.2 hfraction, Single.readExponent?, Numeral.decimal]
      exact hne

theorem toLower_of_mem_lexeme (hwritten : number.IsWritten) :
    ∀ c ∈ number.lexeme, c.toLower = c := by
  intro c hmem
  obtain hdigit | rfl := forall_mem_lexeme hwritten c hmem
  · apply Char.toLower_eq_of_not_isUpper
    grind [Char.isUpper, Char.isDigit]
  · rfl

/-- A numeral is none of the words for numbers, and it has no sign. -/
theorem read?_lexeme (hwritten : number.IsWritten) :
    Single.read? (String.ofList number.lexeme) = some number.decimal.toSingle := by
  have hword {word : String} (hlower : lowerCase (String.ofList number.lexeme) = word) :
      ∀ c ∈ word.toList, c.isDigit = true ∨ c = '.' := by
    rw [← hlower, lowerCase, String.toList_ofList, String.toList_ofList,
      List.map_congr_left (toLower_of_mem_lexeme hwritten), List.map_id']
    exact forall_mem_lexeme hwritten
  have hunsigned : Single.readUnsigned? number.lexeme = some number.decimal.toSingle := by
    rw [Single.readUnsigned?]
    split
    next hlower => exact absurd (hword hlower 'i' (by decide)) (by decide)
    next hlower => exact absurd (hword hlower 'i' (by decide)) (by decide)
    next hlower => exact absurd (hword hlower 'n' (by decide)) (by decide)
    next => exact readDecimal?_lexeme hwritten
  rw [Single.read?, String.toList_ofList]
  split
  next hsign =>
    exact absurd (forall_mem_lexeme hwritten '-' (by rw [hsign]; simp)) (by decide)
  next hsign =>
    exact absurd (forall_mem_lexeme hwritten '+' (by rw [hsign]; simp)) (by decide)
  next => exact hunsigned

end Numerals

/-! ### One lexeme, one kind -/

/-- The three classes of lexemes, with the kind as a function of the text. -/
theorem Kind.HasLexeme.classes {kind : Kind} {text : List Char} (hlexeme : kind.HasLexeme text) :
    (∃ number : Numeral, number.IsWritten ∧ text = number.lexeme ∧
        kind = .number (numeralValue text)) ∨
      (isName text = true ∧ kind = nameKind text) ∨
        ∃ symbol : Symbol, text = symbol.spelling.toList ∧ kind = .symbol symbol := by
  cases hlexeme with
  | number hwritten =>
      exact Or.inl ⟨_, hwritten, rfl, by rw [numeralValue_isWritten hwritten]⟩
  | identifier hword =>
      refine Or.inr (Or.inl ⟨hword.isName, ?_⟩)
      have hkind : nameKind (joined text []) = _ := nameKind_joined hword
      rw [if_pos rfl, joined, List.flatMap_nil, List.append_nil] at hkind
      exact hkind.symm
  | path hfirst hothers hne =>
      refine Or.inr (Or.inl ⟨isName_joined hfirst hothers, ?_⟩)
      rw [nameKind_joined hfirst, if_neg hne]
  | symbol symbol => exact Or.inr (Or.inr ⟨symbol, rfl, rfl⟩)

theorem startsNumeral_of_isName {text : List Char} (hname : isName text = true) :
    startsNumeral text = false := by
  cases text with
  | nil => rfl
  | cons c text =>
      rw [isName, Bool.and_eq_true] at hname
      rw [startsNumeral, isDigit_of_isNameStart hname.1]
      exact fun _ _ hc => absurd hc (ne_dot_of_isNameChar (isNameChar_of_isNameStart hname.1))

theorem startsNumeral_spelling (symbol : Symbol) :
    startsNumeral symbol.spelling.toList = false := by
  cases symbol <;> decide

theorem isName_spelling (symbol : Symbol) : isName symbol.spelling.toList = false := by
  cases symbol <;> decide

/-- A lexeme is a token of one kind. -/
theorem Kind.HasLexeme.unique {kind other : Kind} {text : List Char}
    (hkind : kind.HasLexeme text) (hother : other.HasLexeme text) : kind = other := by
  obtain ⟨number, hnumber, rfl, rfl⟩ | ⟨hname, rfl⟩ | ⟨symbol, rfl, rfl⟩ := hkind.classes
  · obtain ⟨_, _, _, rfl⟩ | ⟨hname, rfl⟩ | ⟨symbol, hsymbol, rfl⟩ := hother.classes
    · rfl
    · have hstart := startsNumeral_of_isName hname
      rw [startsNumeral_lexeme hnumber] at hstart
      cases hstart
    · have hstart := startsNumeral_spelling symbol
      rw [← hsymbol, startsNumeral_lexeme hnumber] at hstart
      cases hstart
  · obtain ⟨number, hnumber, rfl, rfl⟩ | ⟨_, rfl⟩ | ⟨symbol, rfl, rfl⟩ := hother.classes
    · have hstart := startsNumeral_of_isName hname
      rw [startsNumeral_lexeme hnumber] at hstart
      cases hstart
    · rfl
    · rw [isName_spelling] at hname
      cases hname
  · obtain ⟨number, hnumber, hlexeme, rfl⟩ | ⟨hname, rfl⟩ | ⟨other, hspelling, rfl⟩ :=
      hother.classes
    · have hstart := startsNumeral_spelling symbol
      rw [hlexeme, startsNumeral_lexeme hnumber] at hstart
      cases hstart
    · rw [isName_spelling] at hname
      cases hname
    · rw [Symbol.eq_of_spelling_eq (String.toList_inj.1 hspelling)]

/-- The text of a number is read as its value. -/
theorem Kind.HasLexeme.read?_eq {value : Float32} {text : List Char}
    (hlexeme : (Kind.number value).HasLexeme text) :
    Single.read? (String.ofList text) = some value := by
  cases hlexeme with
  | number hwritten => exact read?_lexeme hwritten

end Token

end MotionScript
