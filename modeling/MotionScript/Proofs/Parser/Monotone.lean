import MotionScript.Proofs.Parser.Congruence
/-!
# A larger budget changes no answer

A call that ends with a value or with an error has not met the end of its budget, so it ends in the
same way on every larger one.
-/

namespace MotionScript.Parser

variable {α β : Type}

/-- Wherever the first parser gives an answer, the second one gives the same. -/
def AgreesWith (parser larger : Parser α) : Prop :=
  ∀ setup state, parser setup state ≠ .exhausted → larger setup state = parser setup state

namespace AgreesWith

variable {parser larger : Parser α}

theorem refl : AgreesWith parser parser :=
  fun _ _ _ => rfl

/-- A larger budget changes nothing in parsers one after the other. -/
theorem bind {next nextLarger : α → Parser β} (hparser : AgreesWith parser larger)
    (hnext : ∀ value, AgreesWith (next value) (nextLarger value)) :
    AgreesWith (parser >>= next) (larger >>= nextLarger) := by
  intro setup state hanswers
  have hsame : larger setup state = parser setup state :=
    hparser setup state fun hrun => hanswers (bind_of_exhausted next hrun)
  rw [bind_apply, hsame]
  cases hrun : parser setup state with
  | done value between =>
      rw [bind_of_done next hrun] at hanswers ⊢
      exact hnext value setup between hanswers
  | failed error between => rw [bind_apply, hrun]
  | exhausted => rw [bind_of_exhausted next hrun]

theorem leaving (hparser : AgreesWith parser larger) :
    AgreesWith (leaving parser) (Parser.leaving larger) := by
  intro setup state hanswers
  rw [leaving_apply, leaving_apply, hparser]
  intro hrun
  rw [leaving_apply, hrun] at hanswers
  exact hanswers rfl

end AgreesWith

def agreement : Congruence where
  Relates := AgreesWith
  exhausted _ _ _ hanswers := absurd rfl hanswers
  ignoring _ := .refl
  enter := .refl
  leaving := .leaving
  bind := .bind

/-- A program that is read to its end or to an error is read in the same way on every larger
budget. -/
theorem program_agreesWith {budget larger : Nat} (hlarger : budget ≤ larger) :
    AgreesWith (program budget) (program larger) :=
  agreement.program hlarger

end MotionScript.Parser
