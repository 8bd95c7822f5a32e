import MotionScript.Proofs.Parser.Steps
import MotionScript.Proofs.Parser.Extent
/-!
# What the parser reads is a derivation

Whatever budget a function of the parser is called with, if it ends with a tree then the grammar
derives the tree from the tokens between the two states.  The functions are taken together, by
induction on the budget; a loop keeps that what has been read so far is derived.
-/

namespace MotionScript.Parser

/-- What the functions of the parser read with the budget is derived by the grammar. -/
structure Sound (budget : Nat) : Prop where
  statement : ∀ {setup state state' e}, statement budget setup state = .done e state' →
    Grammar.Statement state.kinds e state'.kinds
  assignment : ∀ {setup state state' e}, assignment budget setup state = .done e state' →
    Grammar.Statement state.kinds e state'.kinds
  ternary : ∀ {setup state state' e}, ternary budget setup state = .done e state' →
    Grammar.Ternary state.kinds e state'.kinds
  chain : ∀ {level setup state state' e}, chain level budget setup state = .done e state' →
    Grammar.Chain level state.kinds e state'.kinds
  fold : ∀ {level setup state state' e}, fold level budget setup state = .done e state' →
    Grammar.Chain level state.kinds e state'.kinds
  unary : ∀ {setup state state' e}, unary budget setup state = .done e state' →
    Grammar.Unary state.kinds e state'.kinds
  primary : ∀ {setup state state' e}, primary budget setup state = .done e state' →
    Grammar.Primary state.kinds e state'.kinds
  named : ∀ {start path setup state state' e},
    named start path budget setup state = .done e state' →
    Grammar.Primary (.path path :: state.kinds) e state'.kinds
  arguments : ∀ {setup state state' es}, arguments budget setup state = .done es state' →
    (es = [] ∧ state.kinds = .symbol .rightParen :: state'.kinds) ∨
      Grammar.Statements [.comma] state.kinds es (.symbol .rightParen :: state'.kinds)

variable {budget : Nat} {setup : Setup} {state state' : State}

/-- A token that is not the end stands before the input behind it. -/
theorem kinds_eq_cons {kind : Token.Kind} (hnext : nextKind state.kinds = kind)
    (hkind : kind ≠ .endOfInput) : state.kinds = kind :: state.advanced.kinds := by
  rw [kinds_advanced]
  exact eq_cons_of_nextKind hnext hkind

namespace Sound

theorem zero : Sound 0 where
  statement := nofun
  assignment := nofun
  ternary := nofun
  chain := nofun
  fold := nofun
  unary := nofun
  primary := nofun
  named := nofun
  arguments := nofun

variable (sound : Sound budget)
include sound

/-! ### Chains -/

/-- An operand is derived at the next tighter level, or as a prefix expression. -/
theorem operand {level : Level} {e : Expr}
    (hrun : operand level budget setup state = .done e state') :
    Grammar.Operand level state.kinds e state'.kinds := by
  cases htighter : level.tighter with
  | some tighter =>
      rw [operand_eq_chain htighter] at hrun
      exact .chain htighter (sound.chain hrun)
  | none =>
      cases level <;> cases htighter
      exact .unary (sound.unary hrun)

/-- One more operator makes a longer chain. -/
theorem operatorStep {level : Level} {input : Grammar.Input} {left e : Expr}
    (hleft : Grammar.Chain level input left state.kinds)
    (hrun : operatorStep level (Parser.operand level budget) left setup state =
      .done (some e) state') :
    Grammar.Chain level input e state'.kinds := by
  obtain ⟨_, hnone, _⟩ | ⟨operator, right, hoperator, _, hright, hsome⟩ := operatorStep_cases hrun
  · cases hnone
  · cases hsome
    obtain ⟨symbol, hsymbol, hmem, hspelling⟩ := Level.operator?_eq_some_iff.1 hoperator
    have hoperand := sound.operand hright
    rw [kinds_eq_cons hsymbol symbol_ne_end] at hleft
    exact .binary hmem hspelling hleft hoperand

/-- One more question mark makes a longer conditional chain. -/
theorem conditionalStep {input : Grammar.Input} {condition e : Expr}
    (hcondition : Grammar.Ternary input condition state.kinds)
    (hrun : conditionalStep (Parser.chain .or budget) condition setup state =
      .done (some e) state') :
    Grammar.Ternary input e state'.kinds := by
  obtain ⟨_, hnone, _⟩ | ⟨whenTrue, between, whenFalse, hquestion, _, hwhenTrue, hcolon, hwhenFalse,
    hsome⟩ := conditionalStep_cases hrun
  · cases hnone
  · cases hsome
    have hfirst := sound.chain hwhenTrue
    rw [kinds_eq_cons hquestion symbol_ne_end] at hcondition
    rw [kinds_eq_cons hcolon symbol_ne_end] at hfirst
    exact .conditional hcondition hfirst (sound.chain hwhenFalse)

/-- What the loop of a level has read is a chain of the level. -/
theorem fold_succ {level : Level} {e : Expr}
    (hrun : Parser.fold level (budget + 1) setup state = .done e state') :
    Grammar.Chain level state.kinds e state'.kinds := by
  rw [Parser.fold_succ] at hrun
  refine chained_keeps ?_ sound.operatorStep ?_ hrun
  · intro first between hfirst
    exact .operand (sound.operand hfirst)
  · intro left state state' hstop
    obtain ⟨_, _, hstate⟩ | ⟨_, _, _, _, _, hsome⟩ := operatorStep_cases hstop
    · exact hstate
    · cases hsome

theorem ternary_succ {e : Expr}
    (hrun : Parser.ternary (budget + 1) setup state = .done e state') :
    Grammar.Ternary state.kinds e state'.kinds := by
  rw [Parser.ternary_succ] at hrun
  refine chained_keeps ?_ sound.conditionalStep ?_ hrun
  · intro first between hfirst
    exact .chain (sound.chain hfirst)
  · intro condition state state' hstop
    obtain ⟨_, _, hstate⟩ | ⟨_, _, _, _, _, _, _, _, hsome⟩ := conditionalStep_cases hstop
    · exact hstate
    · cases hsome

/-! ### Statements -/

theorem statement_succ {e : Expr}
    (hrun : Parser.statement (budget + 1) setup state = .done e state') :
    Grammar.Statement state.kinds e state'.kinds := by
  obtain ⟨_, last, rfl, hassignment⟩ := statement_cases hrun
  have hderived := sound.assignment hassignment
  exact hderived

theorem assignment_succ {e : Expr}
    (hrun : Parser.assignment (budget + 1) setup state = .done e state') :
    Grammar.Statement state.kinds e state'.kinds := by
  obtain ⟨_, hternary⟩ |
    ⟨operator, scope, name, value, path, hoperator, hpath, hscoped, hwritable, hvalue, rfl⟩ :=
    assignment_cases hrun
  · exact .ternary (sound.ternary hternary)
  · obtain ⟨symbol, hsymbol, hspelling⟩ := assignment?_eq_some_iff.1 hoperator
    rw [← kinds_advanced] at hsymbol
    have hderived := sound.statement hvalue
    rw [kinds_eq_cons hpath path_ne_end, kinds_eq_cons hsymbol symbol_ne_end]
    exact .assign (scopedName?_eq_some_iff.1 hscoped) (Scope.isWritable_iff.1 hwritable) hspelling
      hderived

theorem argumentStep {input : Grammar.Input} {es es' : List Expr}
    (hstatements : Grammar.Statements [.comma] input es state.kinds)
    (hrun : argumentStep (Parser.statement budget) es setup state = .done (some es') state') :
    Grammar.Statements [.comma] input es' state'.kinds := by
  obtain ⟨_, hnone, _⟩ | ⟨e, hcomma, hstatement, hsome⟩ := argumentStep_cases hrun
  · cases hnone
  · cases hsome
    rw [kinds_eq_cons hcomma symbol_ne_end] at hstatements
    exact .append (List.mem_singleton_self _) hstatements (sound.statement hstatement)

/-- What is read in a call is an empty list or statements between commas, up to the parenthesis. -/
theorem arguments_succ {es : List Expr}
    (hrun : Parser.arguments (budget + 1) setup state = .done es state') :
    (es = [] ∧ state.kinds = .symbol .rightParen :: state'.kinds) ∨
      Grammar.Statements [.comma] state.kinds es (.symbol .rightParen :: state'.kinds) := by
  obtain ⟨hclose, rfl, rfl⟩ | ⟨first, between, last, hfirst, hloop, hclose, rfl⟩ :=
    arguments_cases hrun
  · exact Or.inl ⟨rfl, kinds_eq_cons hclose symbol_ne_end⟩
  · obtain ⟨stop, hstatements, hstop⟩ :=
      iterate_keeps sound.argumentStep (.single (sound.statement hfirst)) hloop
    obtain rfl : stop = last := by
      apply hstop.elim id
      intro hstop
      obtain ⟨_, _, hstate⟩ | ⟨_, _, _, hsome⟩ := argumentStep_cases hstop
      · exact hstate
      · cases hsome
    rw [kinds_eq_cons hclose symbol_ne_end] at hstatements
    exact Or.inr hstatements

/-! ### Operands -/

theorem unary_succ {e : Expr} (hrun : Parser.unary (budget + 1) setup state = .done e state') :
    Grammar.Unary state.kinds e state'.kinds := by
  obtain ⟨symbol, operator, hsymbol, hspelling, hsigned⟩ | ⟨hplus, hunary⟩ | hprimary :=
    unary_cases hrun
  · obtain ⟨_, operand, last, hoperand, rfl, rfl⟩ := signed_cases hsigned
    have hderived := sound.unary hoperand
    rw [kinds_eq_cons hsymbol symbol_ne_end]
    exact .operator hspelling hderived
  · rw [kinds_eq_cons hplus symbol_ne_end]
    exact .plus (sound.unary hunary)
  · exact .primary (sound.primary hprimary)

/-- What stands behind a path of the scope `math`. -/
theorem call {start : Nat} {path name : String} {e : Expr}
    (hname : functionName? path = some name)
    (hrun : call start path name (Parser.arguments budget) setup state = .done e state') :
    Grammar.Primary (.path path :: state.kinds) e state'.kinds := by
  obtain ⟨function, arguments, hfunction, harity, rfl, ⟨hopen, harguments⟩ | ⟨rfl, rfl, rfl⟩⟩ :=
    call_cases hrun
  · have hpath := isSpelledBy_of_functionName? hname hfunction
    rw [kinds_eq_cons hopen symbol_ne_end]
    obtain ⟨rfl, hclose⟩ | hstatements := sound.arguments harguments
    · rw [hclose]
      exact .emptyCall hpath harity.symm
    · exact .call hpath harity hstatements
  · exact .pi (isSpelledBy_of_functionName? hname hfunction)

theorem primary_succ {e : Expr} (hrun : Parser.primary (budget + 1) setup state = .done e state') :
    Grammar.Primary state.kinds e state'.kinds := by
  obtain ⟨value, hnumber, rfl, rfl⟩ | ⟨last, hopen, hstatement, hclose, rfl⟩ |
    ⟨path, start, hpath, hnamed⟩ := primary_cases hrun
  · rw [kinds_eq_cons hnumber number_ne_end]
    exact .number
  · have hderived := sound.statement hstatement
    rw [kinds_eq_cons hclose symbol_ne_end] at hderived
    rw [kinds_eq_cons hopen symbol_ne_end]
    exact .parentheses hderived
  · rw [kinds_eq_cons hpath path_ne_end]
    exact sound.named hnamed

theorem named_succ {start : Nat} {path : String} {e : Expr}
    (hrun : Parser.named start path (budget + 1) setup state = .done e state') :
    Grammar.Primary (.path path :: state.kinds) e state'.kinds := by
  obtain ⟨name, hname, hcall⟩ | ⟨scope, name, hscoped, rfl, hparens⟩ := named_cases hrun
  · exact sound.call hname hcall
  · have hspelled := scopedName?_eq_some_iff.1 hscoped
    obtain ⟨_, rfl⟩ | ⟨hopen, hclose, rfl⟩ := emptyParens_cases hparens
    · exact .reference hspelled
    · rw [← kinds_advanced] at hclose
      rw [kinds_eq_cons hopen symbol_ne_end, kinds_eq_cons hclose symbol_ne_end]
      exact .emptyParens hspelled

theorem succ : Sound (budget + 1) where
  statement := sound.statement_succ
  assignment := sound.assignment_succ
  ternary := sound.ternary_succ
  chain := sound.fold
  fold := sound.fold_succ
  unary := sound.unary_succ
  primary := sound.primary_succ
  named := sound.named_succ
  arguments := sound.arguments_succ

end Sound

theorem sound (budget : Nat) : Sound budget := by
  induction budget with
  | zero => exact Sound.zero
  | succ budget ih => exact ih.succ

/-! ### Programs -/

/-- One more statement makes a longer list. -/
theorem statementStep_sound {input : Grammar.Input} {es es' : List Expr}
    (hstatements : Grammar.Statements [.semicolon, .comma] input es state.kinds)
    (hrun : statementStep (statement budget) es setup state = .done (some es') state') :
    Grammar.Statements [.semicolon, .comma] input es' state'.kinds := by
  obtain ⟨_, hnone, _⟩ | ⟨_, _, hnone, _⟩ | ⟨e, hseparator, hstatement, hsome⟩ :=
    statementStep_cases hrun
  · cases hnone
  · cases hnone
  · cases hsome
    obtain ⟨symbol, hsymbol, hmem⟩ := isSeparator_iff.1 hseparator
    rw [kinds_eq_cons hsymbol symbol_ne_end] at hstatements
    exact .append hmem hstatements ((sound budget).statement hstatement)

/-- A program that the parser accepts is one of the grammar. -/
theorem program_sound {e : Expr} (hstream : Grammar.IsStream state.kinds)
    (hrun : program budget setup state = .done e state') : Grammar.Program state.kinds e := by
  obtain ⟨first, between, es, last, hfirst, hloop, hend, _, hresult⟩ := program_cases hrun
  obtain ⟨stop, hstatements, hstop⟩ :=
    iterate_keeps statementStep_sound (.single ((sound budget).statement hfirst)) hloop
  have hrest : Grammar.IsStream stop.kinds := hstream.of_spans hstatements.spans
  have hending : Grammar.Ending stop.kinds := by
    have hplain (hstate : stop = last) : Grammar.Ending stop.kinds := by
      rw [hrest.eq_end (hstate ▸ hend)]
      exact .plain
    obtain hstate | hstop := hstop
    · exact hplain hstate
    · obtain ⟨_, _, hstate⟩ | ⟨hseparator, hnext, _, hstate⟩ | ⟨_, _, _, hsome⟩ :=
        statementStep_cases hstop
      · exact hplain hstate
      · obtain ⟨symbol, hsymbol, hmem⟩ := isSeparator_iff.1 hseparator
        have hkinds := kinds_eq_cons hsymbol symbol_ne_end
        rw [hkinds] at hrest ⊢
        rw [(hrest.of_cons symbol_ne_end).eq_end (kinds_advanced stop ▸ hnext)]
        exact .separated hmem
      · cases hsome
  obtain rfl | ⟨hlength, rfl⟩ := hresult
  · exact .single hstatements.statement hending
  · have hpositive := List.length_pos_iff.2 hstatements.ne_nil
    exact .several hstatements (by omega) hending

end MotionScript.Parser
