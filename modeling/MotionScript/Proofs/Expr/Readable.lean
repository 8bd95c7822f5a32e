import MotionScript.Proofs.Expr.Constants
import MotionScript.Proofs.Expr.Shape
import MotionScript.Proofs.Parser.Soundness
import MotionScript.Proofs.Token.Lexemes
/-!
# Expressions that are read

The trees of source texts are well formed, since scanning gives no other paths than names, and their
constants are finite, since it gives no other numbers.  Simplification keeps both.
-/

namespace MotionScript

namespace Expr

/-- An expression inside another one in the tree of a source text. -/
inductive Readable : Expr → Prop
  | constant {value : Float32} : value.isFinite = true → Readable (.constant value)
  | reference {scope : Scope} {name : String} :
      Token.isName name.toList = true → Readable (.reference scope name)
  | unary {operator : UnaryOp} {operand : Expr} :
      Readable operand → Readable (.unary operator operand)
  | binary {operator : BinaryOp} {left right : Expr} :
      Readable left → Readable right → Readable (.binary operator left right)
  | conditional {condition whenTrue whenFalse : Expr} :
      Readable condition → Readable whenTrue → Readable whenFalse →
        Readable (.conditional condition whenTrue whenFalse)
  | assign {operator : AssignOp} {scope : Scope} {name : String} {value : Expr} :
      scope = .variable ∨ scope = .temp → Token.isName name.toList = true → Readable value →
        Readable (.assign operator scope name value)
  | call {function : MathFunction} {arguments : List Expr} :
      arguments.length = function.arity → (∀ e ∈ arguments, Readable e) →
        Readable (.call function arguments)

/-- The tree of a source text. -/
inductive ReadableProgram : Expr → Prop
  | nested {e : Expr} : Readable e → ReadableProgram e
  | sequence {statements : List Expr} :
      2 ≤ statements.length → (∀ e ∈ statements, Readable e) →
        ReadableProgram (.sequence statements)

namespace Readable

variable {e : Expr}

/-- Readable expressions are well nested. -/
theorem wellNested (hreadable : Readable e) : Nested e := by
  induction hreadable with
  | constant => exact .constant
  | reference hname => exact .reference hname
  | unary _ ih => exact .unary ih
  | binary _ _ ihLeft ihRight => exact .binary ihLeft ihRight
  | conditional _ _ _ ihCondition ihTrue ihFalse => exact .conditional ihCondition ihTrue ihFalse
  | assign hwritable hname _ ih => exact .assign hwritable hname ih
  | call harity _ ih => exact .call harity ih

/-- All constants of a readable expression are finite. -/
theorem finite (hreadable : Readable e) : ∀ value ∈ e.constants, value.isFinite = true := by
  induction hreadable with
  | constant hfinite => exact List.forall_mem_singleton.2 hfinite
  | reference => exact List.forall_mem_nil _
  | unary _ ih => exact ih
  | binary _ _ ihLeft ihRight =>
      rw [constants, List.forall_mem_append]
      exact ⟨ihLeft, ihRight⟩
  | conditional _ _ _ ihCondition ihTrue ihFalse =>
      rw [constants, List.forall_mem_append, List.forall_mem_append]
      exact ⟨⟨ihCondition, ihTrue⟩, ihFalse⟩
  | assign _ _ _ ih => exact ih
  | call _ _ ih => exact forall_mem_allConstants.2 ih

/-- Nothing but finite constants is asked of a nested expression beyond its shape. -/
theorem of_wellNested (hnested : Nested e)
    (hfinite : ∀ value ∈ e.constants, value.isFinite = true) : Readable e := by
  induction hnested with
  | constant => exact .constant (hfinite _ (List.mem_singleton_self _))
  | reference hname => exact .reference hname
  | unary _ ih => exact .unary (ih hfinite)
  | binary _ _ ihLeft ihRight =>
      rw [constants, List.forall_mem_append] at hfinite
      exact .binary (ihLeft hfinite.1) (ihRight hfinite.2)
  | conditional _ _ _ ihCondition ihTrue ihFalse =>
      rw [constants, List.forall_mem_append, List.forall_mem_append] at hfinite
      exact .conditional (ihCondition hfinite.1.1) (ihTrue hfinite.1.2) (ihFalse hfinite.2)
  | assign hwritable hname _ ih => exact .assign hwritable hname (ih hfinite)
  | call harity _ ih =>
      rw [constants, forall_mem_allConstants] at hfinite
      exact .call harity fun e hmem => ih e hmem (hfinite e hmem)

end Readable

namespace ReadableProgram

variable {e : Expr}

theorem wellFormed (hreadable : ReadableProgram e) : WellFormed e := by
  cases hreadable with
  | nested hreadable => exact .nested hreadable.wellNested
  | sequence hmany hreadable => exact .sequence hmany fun e hmem => (hreadable e hmem).wellNested

theorem finite (hreadable : ReadableProgram e) :
    ∀ value ∈ e.constants, value.isFinite = true := by
  cases hreadable with
  | nested hreadable => exact hreadable.finite
  | sequence _ hreadable =>
      exact forall_mem_allConstants.2 fun e hmem => (hreadable e hmem).finite

/-- Nothing but finite constants is asked of a program beyond its shape. -/
theorem of_wellFormed (hwellFormed : WellFormed e)
    (hfinite : ∀ value ∈ e.constants, value.isFinite = true) : ReadableProgram e := by
  cases hwellFormed with
  | nested hnested => exact .nested (.of_wellNested hnested hfinite)
  | sequence hmany hnested =>
      rw [constants, forall_mem_allConstants] at hfinite
      exact .sequence hmany fun e hmem => .of_wellNested (hnested e hmem) (hfinite e hmem)

theorem simplify (hreadable : ReadableProgram e) : ReadableProgram e.simplify :=
  of_wellFormed hreadable.wellFormed.simplify (finite_simplify hreadable.finite)

end ReadableProgram

end Expr

/-! ### What the grammar spells -/

namespace Grammar

open MotionScript.Expr

variable {input between rest : Input}

/-- Whether scanning may give the tokens of an input. -/
def Lexed (input : Input) : Prop :=
  ∀ kind ∈ input, kind.IsLexed

theorem Lexed.tail {kind : Token.Kind} (hlexed : Lexed (kind :: input)) : Lexed input :=
  (List.forall_mem_cons.1 hlexed).2

theorem Lexed.behind {kind : Token.Kind} (hlexed : Lexed input)
    (hspans : Spans input (kind :: between)) : Lexed between :=
  fun found hfound => hlexed found (hspans.isSuffix.subset (List.mem_cons_of_mem _ hfound))

theorem Lexed.isName {scope : Scope} {name path : String} (hlexed : Lexed (.path path :: input))
    (hpath : scope.SpelledBy name path) : Token.isName name.toList = true :=
  (Token.isName_of_spelledBy hpath).symm.trans (List.forall_mem_cons.1 hlexed).1

mutual

theorem Statement.readable {e : Expr} {input rest : Input} :
    Statement input e rest → Lexed input → Readable e
  | .assign hpath hwritable _ hvalue, hlexed =>
    .assign hwritable (hlexed.isName hpath) (hvalue.readable hlexed.tail.tail)
  | .ternary hternary, hlexed => hternary.readable hlexed

theorem Ternary.readable {e : Expr} {input rest : Input} :
    Ternary input e rest → Lexed input → Readable e
  | .chain hchain, hlexed => hchain.readable hlexed
  | .conditional hcondition hwhenTrue hwhenFalse, hlexed =>
    have hfirst := hlexed.behind hcondition.spans.spans
    have hsecond := hfirst.behind hwhenTrue.spans.spans
    .conditional (hcondition.readable hlexed) (hwhenTrue.readable hfirst)
      (hwhenFalse.readable hsecond)

theorem Chain.readable {level : Parser.Level} {e : Expr} {input rest : Input} :
    Chain level input e rest → Lexed input → Readable e
  | .operand hoperand, hlexed => hoperand.readable hlexed
  | .binary _ _ hleft hright, hlexed =>
    .binary (hleft.readable hlexed) (hright.readable (hlexed.behind hleft.spans.spans))

theorem Operand.readable {level : Parser.Level} {e : Expr} {input rest : Input} :
    Operand level input e rest → Lexed input → Readable e
  | .chain _ hchain, hlexed => hchain.readable hlexed
  | .unary hunary, hlexed => hunary.readable hlexed

theorem Unary.readable {e : Expr} {input rest : Input} :
    Unary input e rest → Lexed input → Readable e
  | .operator _ hoperand, hlexed => .unary (hoperand.readable hlexed.tail)
  | .plus hunary, hlexed => hunary.readable hlexed.tail
  | .primary hprimary, hlexed => hprimary.readable hlexed

theorem Primary.readable {e : Expr} {input rest : Input} :
    Primary input e rest → Lexed input → Readable e
  | .number, hlexed => .constant (List.forall_mem_cons.1 hlexed).1
  | .parentheses hstatement, hlexed => hstatement.readable hlexed.tail
  | .call _ harity harguments, hlexed => .call harity (harguments.readable hlexed.tail.tail)
  | .emptyCall _ harity, _ => .call harity.symm nofun
  | .pi _, _ => .call rfl nofun
  | .reference hpath, hlexed => .reference (hlexed.isName hpath)
  | .emptyParens hpath, hlexed => .reference (hlexed.isName hpath)

theorem Statements.readable {separators : List Symbol} {es : List Expr} {input rest : Input} :
    Statements separators input es rest → Lexed input → ∀ e ∈ es, Readable e
  | .single hstatement, hlexed => List.forall_mem_singleton.2 (hstatement.readable hlexed)
  | .append _ hstatements hstatement, hlexed =>
    List.forall_mem_append.2 ⟨hstatements.readable hlexed,
      List.forall_mem_singleton.2 (hstatement.readable (hlexed.behind hstatements.spans))⟩

end

theorem Program.readable {e : Expr} (hprogram : Program input e) (hlexed : Lexed input) :
    ReadableProgram e := by
  cases hprogram with
  | single hstatement _ => exact .nested (hstatement.readable hlexed)
  | several hstatements hmany _ => exact .sequence hmany (hstatements.readable hlexed)

end Grammar

/-- The tree that a source text is accepted as can be written down again. -/
theorem Expr.readableProgram_of_parseWithin {limit : Nat} {source : String} {e : Expr}
    (hparse : Expr.parseWithin limit source = .ok e) : ReadableProgram e := by
  obtain ⟨tokens, lastOffset, _, htokens, hrun⟩ := Parser.exists_run_of_parseWithin hparse
  have hstream : Grammar.IsStream (Parser.State.kinds ⟨tokens, 0⟩) := tokenize_isStream htokens
  exact (Parser.program_sound hstream hrun).readable (tokenize_isLexed htokens)

end MotionScript
