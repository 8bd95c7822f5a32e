import MotionScript.Proofs.Parser.Steps
/-!
# Reading a given value

A parser reads a value from one view of the tokens to another if every run from the first ends with
the value at the second, as long as the budget lasts.  The rules of this module build such readings
from the readings of the parts, one rule for each way in which the grammar makes an expression.
Nothing has to be said about budgets until all of the input is read.
-/

namespace MotionScript.Parser

variable {α β : Type} {setup : Setup}

/-- All that a parser goes by: the kinds of the tokens that are left, and the nesting. -/
structure View where
  input : List Token.Kind
  depth : Nat

def State.view (state : State) : View :=
  ⟨state.kinds, state.depth⟩

/-- Where the parser starts at the first view, it ends with the value at the second one, or its
budget is used up. -/
def Reads (parser : Parser α) (setup : Setup) (before : View) (value : α) (after : View) : Prop :=
  ∀ state : State, state.view = before → parser setup state = .exhausted ∨
    ∃ state' : State, parser setup state = .done value state' ∧ state'.view = after

namespace Reads

variable {before between after : View} {input rest : List Token.Kind} {depth level : Nat}

theorem exhausted {value : α} : Reads exhausted setup before value after :=
  fun _ _ => Or.inl rfl

theorem pure {value : α} : Reads (pure value) setup before value before :=
  fun state hview => Or.inr ⟨state, rfl, hview⟩

/-- What two parsers read one after the other is read by both in a row. -/
theorem bind {parser : Parser α} {next : α → Parser β} {value : α} {result : β}
    (hparser : Reads parser setup before value between)
    (hnext : Reads (next value) setup between result after) :
    Reads (parser >>= next) setup before result after := by
  intro state hview
  obtain hrun | ⟨state', hrun, hview'⟩ := hparser state hview
  · exact Or.inl (bind_of_exhausted next hrun)
  · rw [bind_of_done next hrun]
    exact hnext state' hview'

/-- A parser that behaves as another one does from a view on. -/
theorem of_eq {parser parser' : Parser α} {value : α}
    (hequal : ∀ state : State, state.view = before →
      ∃ state' : State, parser setup state = parser' setup state' ∧ state'.view = between)
    (hparser : Reads parser' setup between value after) :
    Reads parser setup before value after := by
  intro state hview
  obtain ⟨state', hrun, hview'⟩ := hequal state hview
  rw [hrun]
  exact hparser state' hview'

/-! ### Building blocks -/

theorem peek {next : Token.Kind → Parser α} {value : α}
    (hnext : Reads (next (nextKind input)) setup ⟨input, depth⟩ value after) :
    Reads (peek >>= next) setup ⟨input, depth⟩ value after := by
  refine of_eq (fun state hview => ⟨state, ?_, hview⟩) hnext
  cases hview
  exact peek_bind next

theorem peekSecond {next : Token.Kind → Parser α} {value : α}
    (hnext : Reads (next (nextKind input.tail)) setup ⟨input, depth⟩ value after) :
    Reads (peekSecond >>= next) setup ⟨input, depth⟩ value after := by
  refine of_eq (fun state hview => ⟨state, ?_, hview⟩) hnext
  cases hview
  exact peekSecond_bind next

theorem offset {next : Nat → Parser α} {value : α}
    (hnext : ∀ start, Reads (next start) setup before value after) :
    Reads (offset >>= next) setup before value after :=
  fun state hview => hnext _ state hview

theorem advance {kind : Token.Kind} {next : Unit → Parser α} {value : α}
    (hnext : Reads (next ()) setup ⟨input, depth⟩ value after) :
    Reads (advance >>= next) setup ⟨kind :: input, depth⟩ value after := by
  refine of_eq (fun state hview => ⟨state.advanced, advance_bind next, ?_⟩) hnext
  obtain ⟨hkinds, hdepth⟩ := View.mk.inj hview
  rw [State.view, kinds_advanced, depth_advanced, hkinds, hdepth, List.tail_cons]

theorem accept {kind : Token.Kind} {next : Bool → Parser α} {value : α}
    (hnext : Reads (next true) setup ⟨input, depth⟩ value after) :
    Reads (accept kind >>= next) setup ⟨kind :: input, depth⟩ value after := by
  refine of_eq (fun state hview => ⟨state.advanced, ?_, ?_⟩) hnext
  · obtain ⟨hkinds, _⟩ := View.mk.inj hview
    rw [accept_bind, hkinds, nextKind_cons, if_pos rfl]
  · obtain ⟨hkinds, hdepth⟩ := View.mk.inj hview
    rw [State.view, kinds_advanced, depth_advanced, hkinds, hdepth, List.tail_cons]

theorem notAccept {kind : Token.Kind} {next : Bool → Parser α} {value : α}
    (hkind : nextKind input ≠ kind)
    (hnext : Reads (next false) setup ⟨input, depth⟩ value after) :
    Reads (Parser.accept kind >>= next) setup ⟨input, depth⟩ value after := by
  refine of_eq (fun state hview => ⟨state, ?_, hview⟩) hnext
  cases hview
  rw [accept_bind, if_neg hkind]

theorem expect {kind : Token.Kind} {expected : Expected} :
    Reads (expect kind expected) setup ⟨kind :: input, depth⟩ () ⟨input, depth⟩ := by
  intro state hview
  obtain ⟨hkinds, hdepth⟩ := View.mk.inj hview
  refine Or.inr ⟨state.advanced, ?_, ?_⟩
  · rw [expect_apply, hkinds, nextKind_cons, if_pos rfl]
  · rw [State.view, kinds_advanced, depth_advanced, hkinds, hdepth, List.tail_cons]

theorem enter (hdepth : depth < setup.limit) :
    Reads enter setup ⟨input, depth⟩ () ⟨input, depth + 1⟩ := by
  intro state hview
  cases hview
  exact Or.inr ⟨state.entered, enter_eq_done_iff.2 ⟨hdepth, rfl⟩, rfl⟩

theorem leaving {parser : Parser α} {value : α}
    (hparser : Reads parser setup before value ⟨rest, depth + 1⟩) :
    Reads (leaving parser) setup before value ⟨rest, depth⟩ := by
  intro state hview
  obtain hrun | ⟨state', hrun, hview'⟩ := hparser state hview
  · exact Or.inl (by rw [leaving_apply, hrun])
  · refine Or.inr ⟨state'.left, by rw [leaving_apply, hrun], ?_⟩
    obtain ⟨hkinds, hdepth⟩ := View.mk.inj hview'
    rw [State.view, kinds_left, depth_left, hkinds, hdepth, Nat.add_sub_cancel]

end Reads

/-! ### Loops -/

/-- A loop that has made some steps from a first value and view is where it would be if it had
started from the last ones; it may make as many more steps as there are tokens left. -/
def Repeats (step : α → Parser (Option α)) (setup : Setup) (first : α) (before : View) (value : α)
    (after : View) : Prop :=
  ∀ (state : State) (rounds : Nat), state.view = before → state.kinds.length ≤ rounds →
    iterate step rounds first setup state = .exhausted ∨
      ∃ (state' : State) (rounds' : Nat),
        iterate step rounds first setup state = iterate step rounds' value setup state' ∧
        state'.view = after ∧ state'.kinds.length ≤ rounds'

namespace Repeats

variable {step : α → Parser (Option α)} {first value next : α} {before between after : View}
  {input rest : List Token.Kind} {depth level : Nat}

theorem refl : Repeats step setup first before first before :=
  fun state rounds hview hrounds => Or.inr ⟨state, rounds, rfl, hview, hrounds⟩

/-- A loop goes on for one more step that takes something off the input. -/
theorem again (hrepeats : Repeats step setup first before value between)
    (hstep : Reads (step value) setup between (some next) after)
    (hshorter : after.input.length < between.input.length) :
    Repeats step setup first before next after := by
  intro state rounds hview hrounds
  obtain hrun | ⟨state', rounds', hrun, hview', hrounds'⟩ := hrepeats state rounds hview hrounds
  · exact Or.inl hrun
  · have hlength : state'.kinds.length = between.input.length := by rw [← hview']; rfl
    cases rounds' with
    | zero => omega
    | succ rounds' =>
        obtain hlast | ⟨last, hlast, hviewLast⟩ := hstep state' hview'
        · apply Or.inl
          rw [hrun, iterate]
          exact bind_of_exhausted _ hlast
        · refine Or.inr ⟨last, rounds', ?_, hviewLast, ?_⟩
          · rw [hrun, iterate]
            exact bind_of_done _ hlast
          · have hlengthLast : last.kinds.length = after.input.length := by rw [← hviewLast]; rfl
            omega

/-- A loop ends where a step gives no new value. -/
theorem reads (hrepeats : Repeats step setup first before value between)
    (hstop : Reads (step value) setup between none after)
    (hend : between.input = [] → after = between) :
    Reads (repeatStep step first) setup before value after := by
  intro state hview
  obtain hrun | ⟨state', rounds, hrun, hview', hrounds⟩ :=
    hrepeats state state.tokens.length hview (Nat.le_of_eq (List.length_map _))
  · exact Or.inl hrun
  · have hkinds : state'.kinds = between.input := by rw [← hview']; rfl
    cases rounds with
    | zero =>
        have hempty := List.length_eq_zero_iff.1 (Nat.le_zero.1 hrounds)
        refine Or.inr ⟨state', hrun, ?_⟩
        rw [hview', hend (hkinds.symm.trans hempty)]
    | succ rounds =>
        obtain hlast | ⟨last, hlast, hviewLast⟩ := hstop state' hview'
        · refine Or.inl (hrun.trans ?_)
          rw [iterate]
          exact bind_of_exhausted _ hlast
        · refine Or.inr ⟨last, hrun.trans ?_, hviewLast⟩
          rw [iterate]
          exact bind_of_done _ hlast

end Repeats

/-- A chain is read as its first operand and the steps of its loop. -/
theorem Reads.chained {operand : Parser α} {step : α → Parser (Option α)} {first value : α}
    {input between rest : List Token.Kind} {depth level : Nat}
    (hfirst : Reads operand setup ⟨input, depth⟩ first ⟨between, depth⟩)
    (hrepeats : Repeats step setup first ⟨between, depth⟩ value ⟨rest, level⟩)
    (hstop : Reads (step value) setup ⟨rest, level⟩ none ⟨rest, level⟩) :
    Reads (chained operand step) setup ⟨input, depth⟩ value ⟨rest, depth⟩ := by
  refine hfirst.bind (fun state hview => ?_)
  cases hview
  rw [depth_bind]
  refine (hrepeats.reads hstop fun _ => rfl).bind ?_ state rfl
  intro last hlast
  cases hlast
  exact Or.inr ⟨_, rfl, rfl⟩

end MotionScript.Parser
