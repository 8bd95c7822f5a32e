import MotionScript.Proofs.Curve.ActiveIndex
import MotionScript.Proofs.Curve.Headroom
import MotionScript.Proofs.CurveTable.Settled
/-!
# Values that a set publishes

An update stores what its curves evaluate to as it is.  Two accepted nodes that are far enough apart
make it store an infinity; a value is finite wherever the expressions behind it leave room for the
formula of the segment that is in force.
-/

namespace MotionScript

/-- Evaluated on its own, an expression has a finite value. -/
theorem Session.isFinite_result (e : Expr) (session : Session) :
    ((e.result : StateM Session Float32).run session).1.isFinite = true := by
  rw [run_result]
  dsimp only
  split
  next hfinite => exact hfinite
  next => decide

namespace CurveTable

/-- An update evaluates each curve in the session that the curves before it left and stores the
value.  The value is finite if the values of its expressions leave room for the formula. -/
theorem update_stores_finite (set : CurveTable) (session : Session)
    {before after : List (String × Curve Expr Float32)} {name : String}
    {curve : Curve Expr Float32} (hset : set.entries = before ++ (name, curve) :: after) :
    let reached := ((publish before : StateM Session Unit).run session).2
    let evaluated := (curve.evaluate : StateM Session Float32).run reached
    let published : Session :=
      { evaluated.2 with context := evaluated.2.context.withVariable name evaluated.1 }
    ((set.update : StateM Session Unit).run session).2 =
        ((publish after : StateM Session Unit).run published).2 ∧
      (((curve.limitedEvaluate Expr.result :
          OptionT (StateM Session) Float32).run.run reached).1.isSome = true →
        evaluated.1.isFinite = true) := by
  intro reached evaluated published
  refine ⟨?_, fun hroom => ?_⟩
  · rw [run_update, run_publish, hset, List.foldl_append, ← run_publish before]
    rfl
  · obtain ⟨value, hvalue⟩ := Option.isSome_iff_exists.1 hroom
    obtain ⟨hsame, hfinite⟩ :=
      curve.confirms_limitedEvaluate Session.isFinite_result reached value _ (Prod.ext hvalue rfl)
    have hstored : evaluated.1 = value := congrArg Prod.fst hsame
    rw [hstored]
    exact hfinite

/-- The second curve reads what the first one stored in one of its slopes, and there is room for the
values of both. -/
theorem update_stores_finite_chain :
    let ramp : Curve Expr Float32 :=
      ⟨.linear, [.plain .zero 0 (.constant 0), .plain .zero 1 (.constant 1e35)],
        .reference .query "t", .one⟩
    let chain : Curve Expr Float32 :=
      ⟨.bezierChain, [.plain .zero 0 (.constant 2),
        ⟨1, .constant 4, .constant 5, .reference .variable "ramp", .zero⟩],
        .reference .query "t", .one⟩
    let set := ofInserts [("ramp", ramp), ("chain", chain)]
    let session : Session :=
      ⟨(Context.ofSeed 7).withQuery "t" (.fixed 0.5), MissLog.ofWindow 0, []⟩
    let reached := ((publish [("ramp", ramp)] : StateM Session Unit).run session).2
    (set.entries = [("ramp", ramp)] ++ ("chain", chain) :: [] ∧
        ((chain.limitedEvaluate Expr.result :
          OptionT (StateM Session) Float32).run.run reached).1.isSome = true) ∧
      ((chain.evaluate : StateM Session Float32).run reached).1.isFinite = true := by
  intro ramp chain set session reached
  have hentries : set.entries = [("ramp", ramp)] ++ ("chain", chain) :: [] := by
    simp [set, ofInserts, Table.insert, Table.place, EmptyCollection.emptyCollection]
  have hroom : ((chain.limitedEvaluate Expr.result :
      OptionT (StateM Session) Float32).run.run reached).1.isSome = true := by
    decide +kernel
  exact ⟨⟨hentries, hroom⟩, (update_stores_finite set session hentries).2 hroom⟩

/-- An accepted line between two numbers of the format reaches an infinity. -/
theorem update_stores_infinity :
    let nodes : List (Curve.Node Expr Float32) :=
      [.plain .zero 0 (.constant 3e38), .plain .zero 1 (.constant (-3e38))]
    let curve : Curve Expr Float32 := ⟨.linear, nodes, .constant 0.5, .one⟩
    let set : CurveTable := Table.insert ∅ "x" curve
    let session : Session := ⟨Context.ofSeed 7, MissLog.ofWindow 0, []⟩
    let updated := ((set.update : StateM Session Unit).run session).2
    let stored : Float32 := -(1 / 0)
    Curve.ofNodes .linear nodes (.constant 0.5) .one = .ok curve ∧
      updated.context.variableValues.get? "x" = some stored ∧ stored.isFinite = false := by
  intro nodes curve set session updated stored
  have hstored : valueIn session curve = stored := by decide +kernel
  refine ⟨?_, ?_, by decide⟩
  · exact Curve.ofNodes_of_pairwise .linear nodes nofun (by decide) (by decide) _ _
  · have hentries : set.entries = [("x", curve)] := rfl
    have hupdated : updated = advance session ("x", curve) := by
      rw [show updated = set.entries.foldl advance session from run_update set session, hentries]
      rfl
    rw [hupdated, ← hstored]
    exact Table.get?_insert_self _ "x" _

end CurveTable

end MotionScript
