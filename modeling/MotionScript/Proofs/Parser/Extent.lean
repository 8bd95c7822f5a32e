import MotionScript.Proofs.Parser.Run
import MotionScript.Proofs.Parser.Terminals
/-!
# How far derivations reach

A derivation takes at least one token and never the end of the input.  It starts with a sign or
with the first token of a primary, and only in a statement may an assignment stand second: this is
why one look at the second token tells an assignment from any other statement.
-/

namespace MotionScript.Grammar

open MotionScript.Parser (nextKind nextKind_cons symbol_ne_end assignment?)

variable {kind : Token.Kind} {input between rest : Input}

/-- Whether an expression may start with a token. -/
def startsExpression : Token.Kind → Bool
  | .number _ | .path _ => true
  | .symbol .leftParen | .symbol .minus | .symbol .bang | .symbol .plus => true
  | _ => false

theorem assignment?_of_startsExpression (hstarts : startsExpression kind = true) :
    assignment? kind = none := by
  simp only [startsExpression] at hstarts
  split at hstarts <;> first | rfl | cases hstarts

/-- The rest is the input without some first tokens, which start an expression and do not hold the
end. -/
def Spans (input rest : Input) : Prop :=
  ∃ first taken, input = first :: (taken ++ rest) ∧ startsExpression first = true ∧
    .endOfInput ∉ taken

/-- The tokens in front of the rest have no assignment in the second place. -/
def SpansPlainly (input rest : Input) : Prop :=
  ∃ first taken, input = first :: (taken ++ rest) ∧ startsExpression first = true ∧
    assignment? (nextKind taken) = none ∧ .endOfInput ∉ taken

/-! ### Joining what two derivations take -/

theorem SpansPlainly.spans (hspans : SpansPlainly input rest) : Spans input rest := by
  obtain ⟨first, taken, hinput, hfirst, _, hend⟩ := hspans
  exact ⟨first, taken, hinput, hfirst, hend⟩

theorem SpansPlainly.single (hkind : startsExpression kind = true) :
    SpansPlainly (kind :: rest) rest :=
  ⟨kind, [], rfl, hkind, rfl, List.not_mem_nil⟩

theorem Spans.ne_end (hspans : Spans input rest) : nextKind input ≠ .endOfInput := by
  obtain ⟨first, taken, rfl, hfirst, _⟩ := hspans
  rintro rfl
  cases hfirst

theorem Spans.ne_rightParen (hspans : Spans input rest) :
    nextKind input ≠ .symbol .rightParen := by
  obtain ⟨first, taken, rfl, hfirst, _⟩ := hspans
  rintro rfl
  cases hfirst

theorem Spans.cons (hspans : Spans input rest) (hkind : startsExpression kind = true) :
    SpansPlainly (kind :: input) rest := by
  have hend := hspans.ne_end
  obtain ⟨first, taken, rfl, hfirst, htaken⟩ := hspans
  refine ⟨kind, first :: taken, rfl, hkind, assignment?_of_startsExpression hfirst, ?_⟩
  rw [List.mem_cons, not_or]
  exact ⟨hend.symm, htaken⟩

theorem Spans.assign {path : String} {symbol : Symbol} (hspans : Spans input rest) :
    Spans (.path path :: .symbol symbol :: input) rest := by
  have hopen := hspans.ne_end
  obtain ⟨first, taken, rfl, hfirst, htaken⟩ := hspans
  refine ⟨.path path, .symbol symbol :: first :: taken, rfl, rfl, ?_⟩
  rw [List.mem_cons, List.mem_cons, not_or, not_or]
  exact ⟨symbol_ne_end.symm, hopen.symm, htaken⟩

theorem Spans.drop (hspans : Spans input (kind :: rest)) (hend : kind ≠ .endOfInput) :
    Spans input rest := by
  obtain ⟨first, taken, rfl, hfirst, htaken⟩ := hspans
  refine ⟨first, taken ++ [kind], by simp, hfirst, ?_⟩
  rw [List.mem_append, List.mem_singleton, not_or]
  exact ⟨htaken, hend.symm⟩

/-- An expression that ends in front of a plain token spans on over what the token starts. -/
theorem SpansPlainly.append (hleft : SpansPlainly input (kind :: between))
    (hkind : assignment? kind = none) (hend : kind ≠ .endOfInput) (hright : Spans between rest) :
    SpansPlainly input rest := by
  have hopen := hright.ne_end
  obtain ⟨first, taken, rfl, hfirst, hsecond, htaken⟩ := hleft
  obtain ⟨next, behind, rfl, hnext, hbehind⟩ := hright
  refine ⟨first, taken ++ kind :: next :: behind, by simp, hfirst, ?_, ?_⟩
  · cases taken with
    | nil => exact hkind
    | cons second taken => exact hsecond
  · rw [List.mem_append, List.mem_cons, List.mem_cons, not_or, not_or, not_or]
    exact ⟨htaken, hend.symm, hopen.symm, hbehind⟩

theorem Spans.append (hleft : Spans input (kind :: between)) (hend : kind ≠ .endOfInput)
    (hright : Spans between rest) : Spans input rest := by
  have hopen := hright.ne_end
  obtain ⟨first, taken, rfl, hfirst, htaken⟩ := hleft
  obtain ⟨next, behind, rfl, hnext, hbehind⟩ := hright
  refine ⟨first, taken ++ kind :: next :: behind, by simp, hfirst, ?_⟩
  rw [List.mem_append, List.mem_cons, List.mem_cons, not_or, not_or, not_or]
  exact ⟨htaken, hend.symm, hopen.symm, hbehind⟩

/-- Empty parentheses behind a path belong to what the path starts. -/
theorem spansPlainly_emptyParens {path : String} :
    SpansPlainly (.path path :: .symbol .leftParen :: .symbol .rightParen :: rest) rest :=
  ⟨.path path, [.symbol .leftParen, .symbol .rightParen], rfl, rfl, rfl, by decide⟩

theorem Spans.length_lt (hspans : Spans input rest) : rest.length < input.length := by
  obtain ⟨first, taken, rfl, _⟩ := hspans
  simp only [List.length_cons, List.length_append]
  omega

theorem Spans.isSuffix (hspans : Spans input rest) : rest <:+ input := by
  obtain ⟨first, taken, rfl, _⟩ := hspans
  exact ⟨first :: taken, rfl⟩

/-! ### What the productions take -/

theorem assignment?_operator {level : Parser.Level} {symbol : Symbol} {operator : BinaryOp}
    (hoperator : operator ∈ level.operators) (hsymbol : symbol.spelling = operator.spelling) :
    assignment? (.symbol symbol) = none := by
  have hlevel := Parser.Level.operator?_eq_some_iff.2 ⟨symbol, rfl, hoperator, hsymbol⟩
  revert hlevel
  cases symbol <;> first | exact fun _ => rfl | (cases level <;> nofun)

theorem startsExpression_sign {symbol : Symbol} {operator : UnaryOp}
    (hsymbol : symbol.spelling = operator.spelling) : startsExpression (.symbol symbol) = true := by
  cases operator
  · rw [show symbol = .minus from Symbol.eq_of_spelling_eq hsymbol]; rfl
  · rw [show symbol = .bang from Symbol.eq_of_spelling_eq hsymbol]; rfl

mutual

theorem Statement.spans {e : Expr} {input rest : Input} :
    Statement input e rest → Spans input rest
  | .assign _ _ _ hvalue => hvalue.spans.assign
  | .ternary hternary => hternary.spans.spans

theorem Ternary.spans {e : Expr} {input rest : Input} :
    Ternary input e rest → SpansPlainly input rest
  | .chain hchain => hchain.spans
  | .conditional hcondition hwhenTrue hwhenFalse =>
    hcondition.spans.append rfl symbol_ne_end
      (hwhenTrue.spans.spans.append symbol_ne_end hwhenFalse.spans.spans)

theorem Chain.spans {level : Parser.Level} {e : Expr} {input rest : Input} :
    Chain level input e rest → SpansPlainly input rest
  | .operand hoperand => hoperand.spans
  | .binary hoperator hsymbol hleft hright =>
    hleft.spans.append (assignment?_operator hoperator hsymbol) symbol_ne_end hright.spans.spans

theorem Operand.spans {level : Parser.Level} {e : Expr} {input rest : Input} :
    Operand level input e rest → SpansPlainly input rest
  | .chain _ hchain => hchain.spans
  | .unary hunary => hunary.spans

theorem Unary.spans {e : Expr} {input rest : Input} :
    Unary input e rest → SpansPlainly input rest
  | .operator hsymbol hoperand => hoperand.spans.spans.cons (startsExpression_sign hsymbol)
  | .plus hunary => hunary.spans.spans.cons rfl
  | .primary hprimary => hprimary.spans

theorem Primary.spans {e : Expr} {input rest : Input} :
    Primary input e rest → SpansPlainly input rest
  | .number => .single rfl
  | .parentheses hstatement => (hstatement.spans.drop symbol_ne_end).cons rfl
  | .call _ _ harguments => ((harguments.spans.drop symbol_ne_end).cons rfl).spans.cons rfl
  | .emptyCall _ _ => spansPlainly_emptyParens
  | .pi _ => .single rfl
  | .reference _ => .single rfl
  | .emptyParens _ => spansPlainly_emptyParens

theorem Statements.spans {separators : List Symbol} {es : List Expr} {input rest : Input} :
    Statements separators input es rest → Spans input rest
  | .single hstatement => hstatement.spans
  | .append _ hstatements hstatement => hstatements.spans.append symbol_ne_end hstatement.spans

end

theorem Statements.ne_nil {separators : List Symbol} {es : List Expr}
    (hstatements : Statements separators input es rest) : es ≠ [] := by
  cases hstatements with
  | single _ => exact List.cons_ne_nil _ _
  | append _ _ _ => exact List.append_ne_nil_of_right_ne_nil _ (List.cons_ne_nil _ _)

theorem Statements.statement {separators : List Symbol} {e : Expr}
    (hstatements : Statements separators input [e] rest) : Statement input e rest := by
  generalize hlist : [e] = es at hstatements
  cases hstatements with
  | single hstatement => cases hlist; exact hstatement
  | append _ hfirst _ =>
      have hlength := congrArg List.length hlist
      rw [List.length_append] at hlength
      exact absurd (List.length_eq_zero_iff.1 (Nat.add_right_cancel hlength).symm) hfirst.ne_nil

/-! ### Streams -/

/-- An input that ends once, after its last token. -/
def IsStream (input : Input) : Prop :=
  ∃ body, .endOfInput ∉ body ∧ input = body ++ [.endOfInput]

theorem IsStream.of_cons (hstream : IsStream (kind :: input)) (hkind : kind ≠ .endOfInput) :
    IsStream input := by
  obtain ⟨body, hbody, hinput⟩ := hstream
  cases body with
  | nil => exact absurd (List.cons.inj hinput).1 hkind
  | cons head body =>
      exact ⟨body, fun hmem => hbody (List.mem_cons_of_mem _ hmem), (List.cons.inj hinput).2⟩

/-- What an expression of a stream leaves is a stream. -/
theorem IsStream.of_spans (hstream : IsStream input) (hspans : Spans input rest) :
    IsStream rest := by
  have hopen := hspans.ne_end
  obtain ⟨first, taken, rfl, _, htaken⟩ := hspans
  have hbehind := hstream.of_cons hopen
  clear hstream hopen
  induction taken with
  | nil => exact hbehind
  | cons kind taken ih =>
      rw [List.mem_cons, not_or] at htaken
      exact ih htaken.2 (hbehind.of_cons (Ne.symm htaken.1))

theorem IsStream.eq_end (hstream : IsStream input) (hnext : nextKind input = .endOfInput) :
    input = [.endOfInput] := by
  obtain ⟨body, hbody, rfl⟩ := hstream
  cases body with
  | nil => rfl
  | cons head body => exact absurd (List.mem_cons.2 (Or.inl hnext.symm)) hbody

end MotionScript.Grammar
