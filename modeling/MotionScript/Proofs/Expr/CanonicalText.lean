import MotionScript.Proofs.Expr.NormalForm
import MotionScript.Proofs.Expr.Readable
import MotionScript.Proofs.Expr.RoundTrip
import MotionScript.Proofs.Parser.Nesting
/-!
# The canonical text of an expression

The text of a simplified tree puts parentheses around each node that is no leaf, and a parenthesis
costs a level of nesting that the source text may have spared.  So it takes a limit of about twice
the height of the tree to read the canonical text, which may be more than the limit under which the
source text was accepted.
-/

namespace MotionScript.Expr

open MotionScript.Parser (deepest deepest_eq)

variable {limit larger : Nat} {source : String} {e : Expr}

/-- A limit that leaves two levels for each edge of the simplified tree accepts its text, which
stands for the same simplified tree. -/
theorem ReadableProgram.text_simplify (hreadable : ReadableProgram e)
    (hlarger : 2 * e.simplify.height + 3 ≤ larger) :
    ∃ e', parseWithin larger e.simplify.text = .ok e' ∧ e'.simplify = e.simplify := by
  have hsimplified := hreadable.simplify
  have hnormal : e.simplify.simplify = e.simplify := simplify_of_isNormal (isNormal_simplify e)
  refine ⟨e.simplify.reread, hsimplified.wellFormed.parseWithin_text_eq hlarger, ?_⟩
  exact (simplify_reread hsimplified.finite).trans hnormal

/-- The canonical text of an accepted expression is accepted under a limit that depends on nothing
but the limit under which the expression was accepted. -/
theorem parseWithin_text_simplify_of_limit (hparse : parseWithin limit source = .ok e)
    (hlarger : 2 * (7 * (limit * (limit - 1) / 2) + limit) + 3 ≤ larger) :
    ∃ e', parseWithin larger e.simplify.text = .ok e' ∧ e'.simplify = e.simplify := by
  rw [← deepest_eq] at hlarger
  have hheight := Nat.le_trans (height_simplify_le e) (height_le_of_parseWithin hparse)
  exact (readableProgram_of_parseWithin hparse).text_simplify (by omega)

/-- The canonical text of an accepted expression is accepted under each limit that leaves two levels
for each edge of the simplified tree, the limit of the source text included. -/
theorem parseWithin_text_simplify (hparse : parseWithin limit source = .ok e)
    (hlarger : 2 * e.simplify.height + 3 ≤ larger) :
    ∃ e', parseWithin larger e.simplify.text = .ok e' ∧ e'.simplify = e.simplify :=
  (readableProgram_of_parseWithin hparse).text_simplify hlarger

/-- Three edges are left on the longest way down, so a limit of nine levels accepts the text as
well. -/
theorem parseWithin_text_simplify_same_limit :
    ∃ e, parseWithin 9 "-query.a * (1 - 3); temp.b = -1" = .ok e ∧ 2 * e.simplify.height + 3 ≤ 9 ∧
      ∃ e', parseWithin 9 e.simplify.text = .ok e' ∧ e'.simplify = e.simplify := by
  have haccepted : (parseWithin 9 "-query.a * (1 - 3); temp.b = -1").toOption.map
      (fun e => e.simplify.height) = some 3 := by
    decide +kernel
  obtain ⟨e, hparse, hheight⟩ := Option.map_eq_some_iff.1 haccepted
  have hlimit : 2 * e.simplify.height + 3 ≤ 9 := by omega
  have hparse := eq_ok_of_toOption hparse
  exact ⟨e, hparse, hlimit, parseWithin_text_simplify hparse hlimit⟩

/-- Sixty-four signs are within the limit of 128 levels, and the parentheses that the canonical text
puts around each of them are not. -/
theorem parse_text_simplify_rejected :
    ∃ source e error, parse source = .ok e ∧ parse e.simplify.text = .error error := by
  let source := String.ofList (List.replicate 64 '-') ++ "query.a"
  have hrejected : (parse source).toOption.map (fun e => (parse e.simplify.text).toOption.isSome) =
      some false := by
    decide +kernel
  obtain ⟨e, hparse, htext⟩ := Option.map_eq_some_iff.1 hrejected
  cases hresult : parse e.simplify.text with
  | ok e' =>
      rw [hresult] at htext
      cases htext
  | error error => exact ⟨source, e, error, eq_ok_of_toOption hparse, hresult⟩

end MotionScript.Expr
