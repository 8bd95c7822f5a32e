import MotionScript.Proofs.Parser.Grammar
/-!
# Terminals

The tables that the parser looks tokens up in hold the terminals of the grammar: a token is an
operator, an assignment, a function or a name for the parser exactly where the grammar spells one.
-/

namespace MotionScript

theorem Symbol.ofSpelling?_spelling (symbol : Symbol) :
    Symbol.ofSpelling? symbol.spelling = some symbol := by
  cases symbol <;> decide

theorem Symbol.eq_of_spelling_eq {first second : Symbol}
    (hspelling : first.spelling = second.spelling) : first = second := by
  have hfirst := Symbol.ofSpelling?_spelling first
  rw [hspelling, Symbol.ofSpelling?_spelling] at hfirst
  exact (Option.some.inj hfirst).symm

theorem Scope.isWritable_iff {scope : Scope} :
    scope.isWritable = true ↔ scope = .variable ∨ scope = .temp := by
  cases scope <;> decide

theorem MathFunction.name_ne_empty (function : MathFunction) : function.name ≠ "" := by
  cases function <;> decide

namespace Parser

/-! ### Operators -/

theorem Level.exists_symbol {level : Level} {operator : BinaryOp}
    (hoperator : operator ∈ level.operators) :
    ∃ symbol : Symbol, symbol.spelling = operator.spelling ∧
      level.operator? (.symbol symbol) = some operator := by
  have hcovers : ∀ operator ∈ level.operators, ∃ symbol ∈ Symbol.all,
      symbol.spelling = operator.spelling ∧
        level.operator? (.symbol symbol) = some operator := by
    cases level <;> decide
  obtain ⟨symbol, _, hsymbol⟩ := hcovers operator hoperator
  exact ⟨symbol, hsymbol⟩

/-- A token is an operator of a level if the level has it under that spelling. -/
theorem Level.operator?_eq_some_iff {level : Level} {kind : Token.Kind} {operator : BinaryOp} :
    level.operator? kind = some operator ↔
      ∃ symbol, kind = .symbol symbol ∧ operator ∈ level.operators ∧
        symbol.spelling = operator.spelling := by
  constructor
  · intro hoperator
    simp only [Level.operator?] at hoperator
    split at hoperator <;> cases hoperator <;> exact ⟨_, rfl, by decide, rfl⟩
  · rintro ⟨symbol, rfl, hmem, hspelling⟩
    obtain ⟨listed, hlisted, hoperator⟩ := Level.exists_symbol hmem
    rw [Symbol.eq_of_spelling_eq (hspelling.trans hlisted.symm)]
    exact hoperator

/-- A token is an assignment sign if it is spelled like one. -/
theorem assignment?_eq_some_iff {kind : Token.Kind} {operator : AssignOp} :
    assignment? kind = some operator ↔
      ∃ symbol, kind = .symbol symbol ∧ symbol.spelling = operator.spelling := by
  constructor
  · intro hassignment
    simp only [assignment?] at hassignment
    split at hassignment <;> cases hassignment <;> exact ⟨_, rfl, rfl⟩
  · rintro ⟨symbol, rfl, hspelling⟩
    have hcovers : ∃ symbol : Symbol, symbol.spelling = operator.spelling ∧
        assignment? (.symbol symbol) = some operator := by
      cases operator
      · exact ⟨.assign, rfl, rfl⟩
      · exact ⟨.plusAssign, rfl, rfl⟩
      · exact ⟨.minusAssign, rfl, rfl⟩
      · exact ⟨.starAssign, rfl, rfl⟩
      · exact ⟨.slashAssign, rfl, rfl⟩
    obtain ⟨listed, hlisted, hassignment⟩ := hcovers
    rw [Symbol.eq_of_spelling_eq (hspelling.trans hlisted.symm)]
    exact hassignment

theorem isSeparator_iff {kind : Token.Kind} :
    isSeparator kind = true ↔ ∃ symbol, kind = .symbol symbol ∧ symbol ∈ [.semicolon, .comma] := by
  rw [isSeparator, Bool.or_eq_true, beq_iff_eq, beq_iff_eq]
  constructor
  · rintro (rfl | rfl)
    · exact ⟨_, rfl, by decide⟩
    · exact ⟨_, rfl, by decide⟩
  · rintro ⟨symbol, rfl, hmem⟩
    simpa using hmem

/-! ### Paths -/

/-- A path is split at its first point. -/
theorem splitPath_append {word name : String} (hword : '.' ∉ word.toList) :
    splitPath (word ++ "." ++ name) = (word, some name) := by
  have hchars : ∀ c ∈ word.toList, (c != '.') = true := by
    intro c hmem
    exact bne_iff_ne.2 fun hdot => hword (hdot ▸ hmem)
  have htake : (word ++ "." ++ name).toList.takeWhile (· != '.') = word.toList := by
    simp [List.takeWhile_append_of_pos hchars]
  rw [splitPath]
  simp only [htake]
  simp

/-- The two parts of a path and the dot between them are the path. -/
theorem eq_append_of_splitPath {path word name : String}
    (hsplit : splitPath path = (word, some name)) : path = word ++ "." ++ name := by
  have happend := List.takeWhile_append_dropWhile (p := (· != '.')) (l := path.toList)
  have hhead := List.head?_dropWhile_not (· != '.') path.toList
  have hdrop := congrArg (List.drop (path.toList.takeWhile (· != '.')).length) happend
  rw [List.drop_left] at hdrop
  unfold splitPath at hsplit
  simp only at hsplit
  split at hsplit
  · cases hsplit
  next dot rest hrest =>
    cases hsplit
    rw [← hdrop] at hrest
    rw [hrest] at happend hhead
    obtain rfl : dot = '.' := by simpa using hhead
    apply String.toList_injective
    simpa using happend.symm

/-- A path names something in a scope exactly if the scope can spell it so. -/
theorem scopedName?_eq_some_iff {path : String} {scope : Scope} {name : String} :
    scopedName? path = some (scope, name) ↔ scope.SpelledBy name path := by
  constructor
  · intro hscoped
    rw [scopedName?] at hscoped
    split at hscoped
    next word rest hsplit =>
      obtain ⟨found, hfound, hpair⟩ := Option.map_eq_some_iff.1 hscoped
      cases hpair
      rw [eq_append_of_splitPath hsplit]
      have hword := List.find?_some hfound
      rw [Bool.or_eq_true, beq_iff_eq, beq_iff_eq] at hword
      exact hword.imp (by rintro rfl; rfl) (by rintro rfl; rfl)
    next => cases hscoped
  · have hkeyword : ∀ word, '.' ∉ word.toList → Scope.ofKeyword? word = some scope →
        scopedName? (word ++ "." ++ name) = some (scope, name) := by
      intro word hdot hfound
      rw [scopedName?, splitPath_append hdot]
      simp only [hfound, Option.map_some]
    rintro (rfl | rfl)
    · exact hkeyword _ (by cases scope <;> decide) (by cases scope <;> decide)
    · exact hkeyword _ (by cases scope <;> decide) (by cases scope <;> decide)

theorem functionName?_of_isSpelledBy {function : MathFunction} {path : String}
    (hpath : function.IsSpelledBy path) : functionName? path = some function.name := by
  obtain rfl | rfl := hpath
  · rw [functionName?, show "math." ++ function.name = "math" ++ "." ++ function.name from rfl,
      splitPath_append (by decide)]
    rfl
  · rw [functionName?, show "m." ++ function.name = "m" ++ "." ++ function.name from rfl,
      splitPath_append (by decide)]
    rfl

/-- A path that names a function spells it. -/
theorem isSpelledBy_of_functionName? {function : MathFunction} {path name : String}
    (hname : functionName? path = some name)
    (hfunction : MathFunction.ofName? name = some function) :
    function.IsSpelledBy path := by
  have hspelling := List.find?_some hfunction
  obtain rfl : function.name = name := beq_iff_eq.1 hspelling
  rw [functionName?] at hname
  split at hname
  next word rest hsplit =>
    split at hname
    next hword =>
      have hrest := Option.some.inj hname
      cases rest with
      | none => exact absurd hrest.symm function.name_ne_empty
      | some rest =>
          cases hrest
          rw [eq_append_of_splitPath hsplit]
          exact hword.imp (by rintro rfl; rfl) (by rintro rfl; rfl)
    next => cases hname

/-- No path is both a function and a value. -/
theorem functionName?_of_spelledBy {scope : Scope} {name path : String}
    (hpath : scope.SpelledBy name path) : functionName? path = none := by
  obtain rfl | rfl := hpath
  · rw [functionName?, splitPath_append (by cases scope <;> decide)]
    cases scope <;> rfl
  · rw [functionName?, splitPath_append (by cases scope <;> decide)]
    cases scope <;> rfl

end Parser

end MotionScript
