import MotionScript.Proofs.Curve.Passes
import MotionScript.Proofs.Expr.BindEvaluate
import MotionScript.Proofs.Table.Inserts
/-!
# Updating a set of curves twice

Where each curve reads only what earlier curves publish, the first update leaves every published
value as the value that its curve has from then on: nothing that the curve reads is published after
it.  A second update therefore stores what is stored already.
-/

namespace MotionScript

open MotionScript.Expr (Name)
open MotionScript.Session (AgreesBeforePass)

namespace Context

theorem value?_variable (context : Context) (name : String) :
    context.value? (.variable, name) = context.variableValues.get? name := by
  rw [value?, provider?]
  cases context.variableValues.get? name <;> rfl

theorem value?_withVariable (context : Context) (name : String) (value : Float32) (other : Name) :
    (context.withVariable name value).value? other =
      if (.variable, name) = other then some value else context.value? other :=
  (value?_assign context .variable name value other).trans (by simp [Scope.isWritable])

end Context

/-- Sessions that agree on a variable, temps aside, have the same value for it. -/
theorem Session.AgreesBeforePass.get?_eq {names : List Name} {left right : Session}
    (hagrees : AgreesBeforePass names left right) {name : String}
    (hname : (.variable, name) ∈ names) :
    left.context.variableValues.get? name = right.context.variableValues.get? name := by
  have hvalue := hagrees.agree.value (.variable, name) hname
  rwa [Context.value?_withoutTemps, Context.value?_withoutTemps, if_neg nofun, if_neg nofun,
    Context.value?_variable, Context.value?_variable] at hvalue

namespace CurveTable

/-- The set that insertions make, one after the other. -/
def ofInserts (inserts : List (String × Curve Expr Float32)) : CurveTable :=
  inserts.foldl (fun set entry => set.insert entry.1 entry.2) ∅

/-- No curve reads a variable that it or a later curve publishes. -/
structure IsAcyclic (set : CurveTable) : Prop where
  itself : ∀ entry ∈ set.entries, (.variable, entry.1) ∉ entry.2.reads
  later : set.entries.Pairwise fun earlier later => (.variable, later.1) ∉ earlier.2.reads

instance (set : CurveTable) : Decidable set.IsAcyclic :=
  decidable_of_iff
    ((∀ entry ∈ set.entries, entry.2.reads.contains (.variable, entry.1) = false) ∧
      set.entries.Pairwise fun earlier later =>
        earlier.2.reads.contains (.variable, later.1) = false) <| by
    simp only [List.contains_eq_mem, decide_eq_false_iff_not]
    exact ⟨fun ⟨hitself, hlater⟩ => ⟨hitself, hlater⟩, fun ⟨hitself, hlater⟩ => ⟨hitself, hlater⟩⟩

theorem nodup_keys_ofInserts (inserts : List (String × Curve Expr Float32)) :
    (ofInserts inserts).keys.Nodup :=
  Table.nodup_keys_insertAll inserts

/-! ### One curve after the other -/

def valueIn (session : Session) (curve : Curve Expr Float32) : Float32 :=
  ((curve.evaluate : StateM Session Float32).run session).1

/-- The session after a curve was evaluated and its value published. -/
def advance (session : Session) (entry : String × Curve Expr Float32) : Session :=
  let evaluated := (entry.2.evaluate : StateM Session Float32).run session
  { evaluated.2 with context := evaluated.2.context.withVariable entry.1 evaluated.1 }

theorem run_publish (entries : List (String × Curve Expr Float32)) (session : Session) :
    ((publish entries : StateM Session Unit).run session).2 = entries.foldl advance session := by
  induction entries generalizing session with
  | nil => rfl
  | cons entry entries ih => exact ih (advance session entry)

theorem run_update (set : CurveTable) (session : Session) :
    ((set.update : StateM Session Unit).run session).2 = set.entries.foldl advance session :=
  run_publish set.entries session

section Step

variable {names : List Name} {session : Session} {entry : String × Curve Expr Float32}

/-- A plain curve changes nothing but temps and the variable that it is published in. -/
theorem withoutTemps_advance (hplain : entry.2.IsPlain) :
    (advance session entry).context.withoutTemps =
      session.context.withoutTemps.withVariable entry.1 (valueIn session entry.2) :=
  congrArg (Context.withVariable · entry.1 (valueIn session entry.2))
    (hplain.withoutTemps_run_evaluate session)

theorem isFixed_advance (hplain : entry.2.IsPlain) (hfixed : session.context.IsFixed) :
    (advance session entry).context.IsFixed := by
  rw [← Context.isFixed_withoutTemps, withoutTemps_advance hplain]
  exact hfixed

/-- A curve that is published changes nothing that the names before it can see. -/
theorem agrees_advance (hplain : entry.2.IsPlain) (hfixed : session.context.IsFixed)
    (hname : (.variable, entry.1) ∉ names) :
    AgreesBeforePass names session (advance session entry) where
  leftFixed := hfixed
  rightFixed := isFixed_advance hplain hfixed
  agree := by
    rw [withoutTemps_advance hplain]
    refine ⟨rfl, fun other hother => ?_⟩
    have hne : (.variable, entry.1) ≠ other := fun hsame => hname (hsame ▸ hother)
    rw [Context.value?_withVariable, if_neg hne]

/-- A curve whose value is stored already stores nothing new. -/
theorem withoutTemps_advance_of_settled (hplain : entry.2.IsPlain)
    (hsettled : session.context.variableValues.get? entry.1 = some (valueIn session entry.2)) :
    (advance session entry).context.withoutTemps = session.context.withoutTemps := by
  rw [withoutTemps_advance hplain, Context.withVariable]
  exact congrArg (fun values => { session.context.withoutTemps with variableValues := values })
    (Table.insert_of_get? hsettled)

end Step

/-! ### All curves in order -/

/-- The variable of each curve has the value that the curve has now. -/
def Settled (entries : List (String × Curve Expr Float32)) (session : Session) : Prop :=
  ∀ entry ∈ entries,
    session.context.variableValues.get? entry.1 = some (valueIn session entry.2)

section Run

variable {names : List Name} {session : Session} {entries : List (String × Curve Expr Float32)}

/-- Publishing plain curves into a fixed context leaves it fixed. -/
theorem isFixed_publish (hplain : ∀ entry ∈ entries, entry.2.IsPlain)
    (hfixed : session.context.IsFixed) : (entries.foldl advance session).context.IsFixed := by
  induction entries generalizing session with
  | nil => exact hfixed
  | cons entry entries ih =>
      rw [List.forall_mem_cons] at hplain
      exact ih hplain.2 (isFixed_advance hplain.1 hfixed)

/-- Names that no curve is published in keep their values. -/
theorem agrees_publish (hplain : ∀ entry ∈ entries, entry.2.IsPlain)
    (hfixed : session.context.IsFixed)
    (hnames : ∀ entry ∈ entries, (.variable, entry.1) ∉ names) :
    AgreesBeforePass names session (entries.foldl advance session) := by
  induction entries generalizing session with
  | nil => exact .of_withoutTemps_eq names hfixed rfl
  | cons entry entries ih =>
      rw [List.forall_mem_cons] at hplain hnames
      have hfirst := agrees_advance hplain.1 hfixed hnames.1
      exact hfirst.trans (ih hplain.2 hfirst.rightFixed hnames.2)

/-- What a curve reads and what it is published in stay as they are while later curves are
published, so every curve is settled in the end. -/
theorem settled_publish (hplain : ∀ entry ∈ entries, entry.2.IsPlain)
    (hfixed : session.context.IsFixed) (hnodup : (entries.map Prod.fst).Nodup)
    (hitself : ∀ entry ∈ entries, (.variable, entry.1) ∉ entry.2.reads)
    (hlater : entries.Pairwise fun earlier later => (.variable, later.1) ∉ earlier.2.reads) :
    Settled entries (entries.foldl advance session) := by
  induction entries generalizing session with
  | nil => exact fun _ hentry => absurd hentry List.not_mem_nil
  | cons entry entries ih =>
      rw [List.forall_mem_cons] at hplain hitself
      rw [List.pairwise_cons] at hlater
      rw [List.map_cons, List.nodup_cons] at hnodup
      have hstep := agrees_advance hplain.1 hfixed hitself.1
      have hrest : AgreesBeforePass ((.variable, entry.1) :: entry.2.reads)
          (advance session entry) (entries.foldl advance (advance session entry)) := by
        refine agrees_publish hplain.2 hstep.rightFixed fun later hmem => ?_
        rw [List.mem_cons, not_or, Prod.mk.injEq]
        refine ⟨fun hsame => hnodup.1 ?_, hlater.1 later hmem⟩
        exact hsame.2 ▸ List.mem_map_of_mem hmem
      refine List.forall_mem_cons.2 ⟨?_, ih hplain.2 hstep.rightFixed hnodup.2 hitself.2 hlater.2⟩
      have hvalue : valueIn session entry.2 =
          valueIn (entries.foldl advance (advance session entry)) entry.2 :=
        (hstep.run_curve (List.Subset.refl _)).trans
          (hrest.run_curve (List.subset_cons_self _ _))
      rw [List.foldl_cons, ← hrest.get?_eq List.mem_cons_self, ← hvalue]
      exact Table.get?_insert_self _ entry.1 _

/-- Curves that are settled leave everything but the temps as it is. -/
theorem withoutTemps_publish_of_settled (hplain : ∀ entry ∈ entries, entry.2.IsPlain)
    (hfixed : session.context.IsFixed) (hsettled : Settled entries session) :
    (entries.foldl advance session).context.withoutTemps = session.context.withoutTemps := by
  induction entries generalizing session with
  | nil => rfl
  | cons entry entries ih =>
      rw [List.forall_mem_cons] at hplain
      obtain ⟨hentry, hrest⟩ := List.forall_mem_cons.1 hsettled
      have hsame := withoutTemps_advance_of_settled hplain.1 hentry
      have hvariables : (advance session entry).context.variableValues =
          session.context.variableValues :=
        Context.variableValues_eq_of_withoutTemps hsame
      have hstill : Settled entries (advance session entry) := by
        intro other hother
        have hagrees := AgreesBeforePass.of_withoutTemps_eq other.2.reads hfixed hsame
        rw [hvariables, hrest other hother]
        exact congrArg some (hagrees.run_curve (List.Subset.refl _))
      exact (ih hplain.2 (isFixed_advance hplain.1 hfixed) hstill).trans hsame

end Run

/-- One update settles a set of plain curves in which none reads a variable that it or a later curve
publishes, if no query has a source of the host behind it.  A second update changes no variable, and
the variable of each curve has the value that the curve has after the first one. -/
theorem update_settles (inserts : List (String × Curve Expr Float32)) (session : Session)
    (hfixed : session.context.IsFixed)
    (hplain : ∀ entry ∈ (ofInserts inserts).entries, entry.2.IsPlain)
    (hacyclic : (ofInserts inserts).IsAcyclic) :
    let first := (((ofInserts inserts).update : StateM Session Unit).run session).2
    let second := (((ofInserts inserts).update : StateM Session Unit).run first).2
    second.context.variableValues = first.context.variableValues ∧
      ∀ entry ∈ (ofInserts inserts).entries,
        first.context.variableValues.get? entry.1 =
          some ((entry.2.evaluate : StateM Session Float32).run first).1 := by
  intro first second
  have hfirst : first = (ofInserts inserts).entries.foldl advance session :=
    run_update (ofInserts inserts) session
  have hsettled : Settled (ofInserts inserts).entries first := by
    rw [hfirst]
    exact settled_publish hplain hfixed (nodup_keys_ofInserts inserts) hacyclic.itself
      hacyclic.later
  have hfixedFirst : first.context.IsFixed := by
    rw [hfirst]
    exact isFixed_publish hplain hfixed
  have hsecond : second.context.withoutTemps = first.context.withoutTemps := by
    rw [show second = (ofInserts inserts).entries.foldl advance first from
      run_update (ofInserts inserts) first]
    exact withoutTemps_publish_of_settled hplain hfixedFirst hsettled
  exact ⟨Context.variableValues_eq_of_withoutTemps hsecond, hsettled⟩

/-- The first name is inserted twice and keeps its place, and the curve after it reads its variable
in the input and in a slope.  That curve also reads a temp, which no expression of it ever finds. -/
theorem update_settles_chain :
    let flat : Curve Expr Float32 := ⟨.bezier, [], .zero, .one⟩
    let ramp : Curve Expr Float32 :=
      ⟨.linear, [.plain .zero 0 (.constant 0), .plain .zero 1 (.constant 10)],
        .reference .query "t", .one⟩
    let chain : Curve Expr Float32 :=
      ⟨.bezierChain, [.plain .zero 0 (.constant 2),
        ⟨1, .constant 4, .constant 5, .reference .variable "ramp", .reference .temp "slope"⟩],
        .reference .variable "ramp", .constant 10⟩
    let inserts := [("ramp", flat), ("chain", chain), ("ramp", ramp)]
    let context := ((Context.ofSeed 7).withQuery "t" (.fixed 0.5)).withTemp "slope" 3
    let session : Session := ⟨context, MissLog.ofWindow 0, []⟩
    let first := (((ofInserts inserts).update : StateM Session Unit).run session).2
    let second := (((ofInserts inserts).update : StateM Session Unit).run first).2
    (context.IsFixed ∧ (∀ entry ∈ (ofInserts inserts).entries, entry.2.IsPlain) ∧
        (ofInserts inserts).IsAcyclic) ∧
      second.context.variableValues = first.context.variableValues ∧
      first.context.variableValues.get? "chain" =
        some ((chain.evaluate : StateM Session Float32).run first).1 := by
  intro flat ramp chain inserts context session
  have hfixed : context.IsFixed := (Context.isFixed_ofSeed 7).withQuery "t" 0.5
  have hplain : ∀ entry ∈ (ofInserts inserts).entries, entry.2.IsPlain := by decide
  have hacyclic : (ofInserts inserts).IsAcyclic := by decide
  have hentries : (ofInserts inserts).entries = [("ramp", ramp), ("chain", chain)] := by
    simp [ofInserts, inserts, Table.insert, Table.place, EmptyCollection.emptyCollection]
  have hchain : ("chain", chain) ∈ (ofInserts inserts).entries := by
    rw [hentries]
    exact .tail _ (.head _)
  obtain ⟨hsame, hvalues⟩ := update_settles inserts session hfixed hplain hacyclic
  have hvalue := hvalues _ hchain
  dsimp only at hvalue
  exact ⟨⟨hfixed, hplain, hacyclic⟩, hsame, hvalue⟩

end CurveTable

end MotionScript
