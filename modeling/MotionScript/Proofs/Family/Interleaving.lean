import Mathlib.Data.Fin.VecNotation
import Mathlib.Data.List.Perm.Basic
import Mathlib.Logic.Function.Basic
import MotionScript.Family
import MotionScript.Proofs.Family.Operation
/-!
# Interleavings

Members of a family may share a log, and whatever one of them reads without a value is counted
there.  What they do never reads the log, so in whichever order the members take turns, each of them
does what it would do alone.  The log gets the same names in another order, which makes no
difference to its totals as long as no warning is due twice.
-/

namespace MotionScript.Family

open MotionScript.Expr (Name)

variable {n : Nat} {α : Type}

/-! ### Entries of several members -/

/-- The entries of one member, in their order. -/
def ofMember (member : Fin n) (entries : List (Fin n × α)) : List α :=
  (entries.filter fun entry => entry.1 = member).map Prod.snd

theorem ofMember_cons_self (member : Fin n) (value : α) (entries : List (Fin n × α)) :
    ofMember member ((member, value) :: entries) = value :: ofMember member entries := by
  simp [ofMember]

theorem ofMember_cons_of_ne {member other : Fin n} (hne : other ≠ member) (value : α)
    (entries : List (Fin n × α)) :
    ofMember member ((other, value) :: entries) = ofMember member entries := by
  simp [ofMember, hne]

theorem ofMember_append (member : Fin n) (entries others : List (Fin n × α)) :
    ofMember member (entries ++ others) = ofMember member entries ++ ofMember member others := by
  simp [ofMember]

theorem ofMember_map_self (member : Fin n) (values : List α) :
    ofMember member (values.map (member, ·)) = values := by
  induction values with
  | nil => rfl
  | cons value values ih => rw [List.map_cons, ofMember_cons_self, ih]

theorem ofMember_map_of_ne {member other : Fin n} (hne : other ≠ member) (values : List α) :
    ofMember member (values.map (other, ·)) = [] := by
  induction values with
  | nil => rfl
  | cons value values ih => rw [List.map_cons, ofMember_cons_of_ne hne, ih]

/-- An entry is counted among those of its own member. -/
theorem count_ofMember [DecidableEq α] (member : Fin n) (value : α)
    (entries : List (Fin n × α)) :
    (ofMember member entries).count value = entries.count (member, value) := by
  induction entries with
  | nil => rfl
  | cons entry entries ih =>
      obtain ⟨other, first⟩ := entry
      by_cases hmember : other = member
      · subst hmember
        rw [ofMember_cons_self, List.count_cons, List.count_cons, ih]
        simp
      · rw [ofMember_cons_of_ne hmember, ih, List.count_cons_of_ne]
        exact fun heq => hmember (congrArg Prod.fst heq)

/-- Lists that have the same entries for each member differ only in the order of the members. -/
theorem perm_of_ofMember_eq [DecidableEq α] {entries others : List (Fin n × α)}
    (heq : ∀ member, ofMember member entries = ofMember member others) : entries.Perm others := by
  rw [List.perm_iff_count]
  intro entry
  rw [← count_ofMember, ← count_ofMember, heq]

/-! ### Schedules -/

/-- An operation of a member, some time after the one before it. -/
structure Event (n : Nat) where
  delay : Nat
  member : Fin n
  operation : Operation

/-- The operations of one member in a schedule, in their order. -/
def operationsOf (member : Fin n) (schedule : List (Event n)) : List Operation :=
  ofMember member (schedule.map fun event => (event.member, event.operation))

/-- A schedule in which the operations of each member are those of its program, in their order. -/
def IsInterleaving (programs : Fin n → List Operation) (schedule : List (Event n)) : Prop :=
  ∀ member, operationsOf member schedule = programs member

namespace Event

/-- The outcome of an event and the ledger that it leaves, if its member is alone. -/
def alone (event : Event n) (contexts : Fin n → Context) : Outcome × Ledger :=
  event.operation.alone (contexts event.member)

def after (event : Event n) (contexts : Fin n → Context) : Fin n → Context :=
  Function.update contexts event.member (event.alone contexts).2.context

end Event

def elapsed : List (Event n) → Nat
  | [] => 0
  | event :: events => event.delay + elapsed events

/-! ### Runs of a schedule -/

/-- A family whose members share one log. -/
def sharing (contexts : Fin n → Context) (log : MissLog) (host : Host) : Family :=
  ⟨List.ofFn fun member => ⟨contexts member, 0⟩, [log], host⟩

def wait (family : Family) (milliseconds : Nat) : Family :=
  { family with logs := family.logs.map (·.wait milliseconds) }

/-- Does the operations of a schedule, and gives the outcome of each with its member. -/
def play : List (Event n) → StateM Family (List (Fin n × Option Outcome))
  | [] => return []
  | event :: events => do
    modify (·.wait event.delay)
    let outcome ← act event.member (event.operation.perform Session.modifyContext)
    let outcomes ← play events
    return (event.member, outcome) :: outcomes

variable {contexts : Fin n → Context} {log : MissLog} {host : Host}

theorem session?_sharing (member : Fin n) :
    (sharing contexts log host).session? member = some ⟨contexts member, log, host⟩ := by
  simp [sharing, session?]

/-- A member of a family with one log changes its own context and the log that all share. -/
theorem putSession_sharing (member : Fin n) (context : Context) (later : MissLog) :
    (sharing contexts log host).putSession member ⟨context, later, host⟩ =
      sharing (Function.update contexts member context) later host := by
  have hmembers : (List.ofFn fun other => (⟨contexts other, 0⟩ : Member)).set member ⟨context, 0⟩ =
      List.ofFn fun other => ⟨Function.update contexts member context other, 0⟩ := by
    apply List.ext_getElem
    · simp
    · intro index hleft hright
      simp only [List.getElem_set, List.getElem_ofFn, Function.update_apply, Fin.ext_iff]
      by_cases hindex : index = member
      · simp [hindex]
      · simp [hindex, Ne.symm hindex]
  simp [putSession, sharing, hmembers]

theorem run_act_of_some {β : Type} {family : Family} {index : Nat} {session : Session}
    (hsession : family.session? index = some session) (action : StateM Session β) :
    (act index action).run family =
      (some (action.run session).1, family.putSession index (action.run session).2) := by
  simp only [act, StateT.run_bind, StateT.run_get, pure_bind, hsession]
  rfl

/-- Events leave fixed contexts fixed. -/
theorem isFixed_after (hfixed : ∀ member, (contexts member).IsFixed) (event : Event n)
    (member : Fin n) : (event.after contexts member).IsFixed := by
  rw [Event.after, Function.update_apply]
  split
  · exact event.operation.isFixed_alone (hfixed event.member)
  · exact hfixed member

/-- An event changes the context of its member as it would change it alone, and has its names
counted. -/
theorem run_act_sharing (hfixed : ∀ member, (contexts member).IsFixed) (event : Event n)
    (log : MissLog) (host : Host) :
    (act event.member (event.operation.perform Session.modifyContext)).run
        (sharing contexts log host) =
      (some (event.alone contexts).1,
        sharing (event.after contexts) (log.recordAll (event.alone contexts).2.missed) host) := by
  have hperform := event.operation.run_perform (hfixed event.member) log host
  rw [run_act_of_some (session?_sharing event.member), hperform, putSession_sharing]
  rfl

theorem wait_sharing (contexts : Fin n → Context) (log : MissLog) (host : Host)
    (milliseconds : Nat) :
    (sharing contexts log host).wait milliseconds =
      sharing contexts (log.wait milliseconds) host := rfl

theorem run_play_cons (event : Event n) (events : List (Event n)) (family : Family) :
    (play (event :: events)).run family =
      let first := (act event.member (event.operation.perform Session.modifyContext)).run
        (family.wait event.delay)
      let rest := (play events).run first.2
      ((event.member, first.1) :: rest.1, rest.2) := rfl

/-! ### What has come of a schedule -/

/-- Each member has the outcomes that its operations have alone, and the log has counted the names
that the members missed. -/
structure Tally (contexts : Fin n → Context) (log : MissLog) (schedule : List (Event n))
    (outcomes : List (Fin n × Option Outcome)) (missed : List (Fin n × Name))
    (later : MissLog) : Prop where
  outcomes_eq (member : Fin n) : ofMember member outcomes =
    (Operation.conduct (contexts member) (operationsOf member schedule)).1.map some
  missed_eq (member : Fin n) : ofMember member missed =
    (Operation.conduct (contexts member) (operationsOf member schedule)).2.missed
  counted : log.Counted (missed.map Prod.snd) later

def contextsAfter (contexts : Fin n → Context) (schedule : List (Event n)) : Fin n → Context :=
  fun member => (Operation.conduct (contexts member) (operationsOf member schedule)).2.context

/-- The operations of a member after the first event of a schedule go on from what the first event
has made of its context. -/
theorem conduct_operationsOf_cons (contexts : Fin n → Context) (event : Event n)
    (schedule : List (Event n)) (member : Fin n) :
    let rest := Operation.conduct (event.after contexts member) (operationsOf member schedule)
    Operation.conduct (contexts member) (operationsOf member (event :: schedule)) =
      if event.member = member then
        ((event.alone contexts).1 :: rest.1,
          ⟨rest.2.context, (event.alone contexts).2.missed ++ rest.2.missed⟩)
      else rest := by
  intro rest
  by_cases hmember : event.member = member
  · subst hmember
    simp only [rest, Event.after, operationsOf, List.map_cons, ofMember_cons_self,
      Function.update_self, if_true]
    rfl
  · simp only [rest, Event.after, operationsOf, List.map_cons, ofMember_cons_of_ne hmember,
      hmember, if_false, Function.update_of_ne (Ne.symm hmember)]

theorem contextsAfter_cons (contexts : Fin n → Context) (event : Event n)
    (schedule : List (Event n)) :
    contextsAfter contexts (event :: schedule) =
      contextsAfter (event.after contexts) schedule := by
  funext member
  rw [contextsAfter, conduct_operationsOf_cons]
  split <;> rfl

/-- The tally of a schedule is that of its first event, added to the tally of what comes after it.
-/
theorem Tally.cons {schedule : List (Event n)} {event : Event n}
    {outcomes : List (Fin n × Option Outcome)} {missed : List (Fin n × Name)}
    {middle later : MissLog} (hmiddle : log.Counted (event.alone contexts).2.missed middle)
    (htally : Tally (event.after contexts) middle schedule outcomes missed later) :
    Tally contexts log (event :: schedule)
      ((event.member, some (event.alone contexts).1) :: outcomes)
      ((event.alone contexts).2.missed.map (event.member, ·) ++ missed) later where
  outcomes_eq member := by
    rw [conduct_operationsOf_cons]
    by_cases hmember : event.member = member
    · subst hmember
      rw [ofMember_cons_self, htally.outcomes_eq, if_pos rfl, List.map_cons]
    · rw [ofMember_cons_of_ne hmember, htally.outcomes_eq, if_neg hmember]
  missed_eq member := by
    rw [conduct_operationsOf_cons, ofMember_append, htally.missed_eq]
    by_cases hmember : event.member = member
    · subst hmember
      rw [ofMember_map_self, if_pos rfl]
    · rw [ofMember_map_of_ne hmember, if_neg hmember, List.nil_append]
  counted := by
    have hnames := hmiddle.append htally.counted
    simpa [Function.comp_def] using hnames

/-- A schedule under which the log stays open can be described by what the members do alone. -/
theorem exists_tally (schedule : List (Event n)) (hfixed : ∀ member, (contexts member).IsFixed)
    (hopen : log.StaysOpen (elapsed schedule)) (host : Host) :
    ∃ outcomes missed later,
      (play schedule).run (sharing contexts log host) =
          (outcomes, sharing (contextsAfter contexts schedule) later host) ∧
        Tally contexts log schedule outcomes missed later := by
  induction schedule generalizing contexts log with
  | nil =>
      refine ⟨[], [], log, rfl, ⟨fun _ => rfl, fun _ => rfl, ?_⟩⟩
      exact MissLog.Counted.wait log 0
  | cons event schedule ih =>
      have hwait : (log.wait event.delay).StaysOpen (elapsed schedule) := hopen.wait
      have hcounted := (MissLog.Counted.wait log event.delay).append
        (MissLog.Counted.recordAll hwait (event.alone contexts).2.missed)
      obtain ⟨outcomes, missed, later, hrun, htally⟩ :=
        ih (isFixed_after hfixed event) (hwait.recordAll (event.alone contexts).2.missed)
      refine ⟨_, _, later, ?_, htally.cons hcounted⟩
      simp only [run_play_cons, wait_sharing, run_act_sharing hfixed, hrun, contextsAfter_cons]

/-! ### Two interleavings -/

/-- Members that share a log have the same outcomes and the same contexts in every interleaving of
their programs, and the log has the same totals, however much time passes between the operations as
long as no warning is due twice. -/
theorem agree_of_isInterleaving {programs : Fin n → List Operation} {left right : List (Event n)}
    (hfixed : ∀ member, (contexts member).IsFixed)
    (hleft : IsInterleaving programs left) (hright : IsInterleaving programs right)
    (hleftOpen : log.StaysOpen (elapsed left)) (hrightOpen : log.StaysOpen (elapsed right))
    (host : Host) :
    let leftRun := (play left).run (sharing contexts log host)
    let rightRun := (play right).run (sharing contexts log host)
    (∀ member, ∃ results : List Outcome, results.length = (programs member).length ∧
        ofMember member leftRun.1 = results.map some ∧
        ofMember member rightRun.1 = results.map some) ∧
      leftRun.2.members = rightRun.2.members ∧
      leftRun.2.host = rightRun.2.host ∧
      leftRun.2.logs.map (fun log => (log.misses, log.warnings)) =
        rightRun.2.logs.map fun log => (log.misses, log.warnings) := by
  intro leftRun rightRun
  obtain ⟨leftOutcomes, leftMissed, leftLog, hleftRun, hleftTally⟩ :=
    exists_tally left hfixed hleftOpen host
  obtain ⟨rightOutcomes, rightMissed, rightLog, hrightRun, hrightTally⟩ :=
    exists_tally right hfixed hrightOpen host
  have hprograms (member : Fin n) : operationsOf member left = operationsOf member right :=
    (hleft member).trans (hright member).symm
  have hcontexts : contextsAfter contexts left = contextsAfter contexts right := by
    funext member
    rw [contextsAfter, contextsAfter, hprograms]
  have hmissed : leftMissed.Perm rightMissed := by
    apply perm_of_ofMember_eq
    intro member
    rw [hleftTally.missed_eq, hrightTally.missed_eq, hprograms]
  obtain ⟨hmisses, hwarnings⟩ :=
    hleftTally.counted.totals_eq hrightTally.counted (hmissed.map Prod.snd)
  simp only [leftRun, rightRun, hleftRun, hrightRun]
  refine ⟨fun member => ?_, ?_, rfl, ?_⟩
  · refine ⟨(Operation.conduct (contexts member) (programs member)).1,
      Operation.length_conduct _ _, ?_, ?_⟩
    · rw [hleftTally.outcomes_eq, hleft]
    · rw [hrightTally.outcomes_eq, hright]
  · rw [hcontexts]
    rfl
  · simp [sharing, hmisses, hwarnings]

/-- Both members read a name without a value, which is warned about once.  Which of them gets the
warning depends on who comes first. -/
theorem agree_of_isInterleaving_turns :
    let missing : Expr := .reference .variable "speed"
    let contexts : Fin 2 → Context :=
      ![Context.ofSeed 1, (Context.ofSeed 2).withQuery "age" (.fixed 3)]
    let programs : Fin 2 → List Operation :=
      ![[.evaluate missing, .setVariable "speed" 1, .result missing],
        [.assign .temp "age" 2, .result? missing]]
    let left : List (Event 2) := [
      ⟨0, 0, .evaluate missing⟩, ⟨5, 0, .setVariable "speed" 1⟩, ⟨1, 0, .result missing⟩,
      ⟨9, 1, .assign .temp "age" 2⟩, ⟨0, 1, .result? missing⟩]
    let right : List (Event 2) := [
      ⟨7, 1, .assign .temp "age" 2⟩, ⟨2, 1, .result? missing⟩, ⟨0, 0, .evaluate missing⟩,
      ⟨0, 0, .setVariable "speed" 1⟩, ⟨3, 0, .result missing⟩]
    let log := MissLog.ofWindow 100
    let leftRun := (play left).run (sharing contexts log [])
    let rightRun := (play right).run (sharing contexts log [])
    ((∀ member, (contexts member).IsFixed) ∧
        IsInterleaving programs left ∧ IsInterleaving programs right ∧
        log.StaysOpen (elapsed left) ∧ log.StaysOpen (elapsed right)) ∧
      ofMember 1 leftRun.1 = ofMember 1 rightRun.1 ∧
      leftRun.2.members = rightRun.2.members ∧
      leftRun.2.logs.map (fun log => (log.misses, log.warnings)) =
        rightRun.2.logs.map fun log => (log.misses, log.warnings) := by
  intro missing contexts programs left right log leftRun rightRun
  have hfixed : ∀ member, (contexts member).IsFixed :=
    Fin.forall_fin_two.2 ⟨Context.isFixed_ofSeed 1, (Context.isFixed_ofSeed 2).withQuery "age" 3⟩
  have hleft : IsInterleaving programs left := Fin.forall_fin_two.2 ⟨rfl, rfl⟩
  have hright : IsInterleaving programs right := Fin.forall_fin_two.2 ⟨rfl, rfl⟩
  have hleftOpen : log.StaysOpen (elapsed left) := ⟨by decide, nofun⟩
  have hrightOpen : log.StaysOpen (elapsed right) := ⟨by decide, nofun⟩
  obtain ⟨hresults, hmembers, -, htotals⟩ :=
    agree_of_isInterleaving hfixed hleft hright hleftOpen hrightOpen []
  obtain ⟨results, -, hleftResults, hrightResults⟩ := hresults 1
  refine ⟨⟨hfixed, hleft, hright, hleftOpen, hrightOpen⟩, ?_⟩
  simp only [leftRun, rightRun]
  exact ⟨hleftResults.trans hrightResults.symm, hmembers, htotals⟩

end MotionScript.Family
