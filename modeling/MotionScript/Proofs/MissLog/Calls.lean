import Mathlib.Data.List.Induction
import MotionScript.Proofs.MissLog.Totals
/-!
# Calls of a log

The totals of a log are counted by the calls that were made of it.  A call is warned about unless a
warning about the same name was given less than a window ago; so in a window that never elapses the
warnings are the first calls for their names, and in a window of no length they are all calls.
-/

namespace MotionScript.MissLog

open MotionScript.Expr (Name)

/-- A call of a log for a name that was read without a value. -/
structure Call where
  time : Nat
  name : Name
  /-- Whether the log gave a warning for it. -/
  warned : Bool

def moveTo (log : MissLog) (time : Nat) : MissLog :=
  { log with clock := time }

/-- The call of a log for a name, at its present time. -/
def call (log : MissLog) (name : Name) : Call :=
  ⟨log.clock, name, (log.record name).1⟩

/-- The calls of a log for some names, one after the other at its present time. -/
def callsFor (log : MissLog) : List Name → List Call
  | [] => []
  | name :: names => log.call name :: (log.record name).2.callsFor names

/-- A log that was started with a window has come to its state by these calls and no others.  The
time of a call may be any time, also one before the call that was made before it. -/
inductive Reached (window : Nat) : List Call → MissLog → Prop
  | start : Reached window [] (ofWindow window)
  | moveTo {calls : List Call} {log : MissLog} (time : Nat) (hlog : Reached window calls log) :
      Reached window calls (log.moveTo time)
  | record {calls : List Call} {log : MissLog} (name : Name) (hlog : Reached window calls log) :
      Reached window (calls ++ [log.call name]) (log.record name).2

/-- No two calls for one name are so far apart that both are warned about. -/
def NeverElapses (window : Nat) (calls : List Call) : Prop :=
  calls.Pairwise fun first second => second.name = first.name → second.time - first.time < window

instance (window : Nat) (calls : List Call) : Decidable (NeverElapses window calls) :=
  inferInstanceAs (Decidable (List.Pairwise _ calls))

/-- The last of the calls for a name that were warned about. -/
def lastWarning? (calls : List Call) (name : Name) : Option Call :=
  (calls.filter fun call => call.warned && decide (call.name = name)).getLast?

/-- What a log keeps of the calls that were made of it. -/
structure Keeps (window : Nat) (calls : List Call) (log : MissLog) : Prop where
  window : log.window = window
  misses : log.misses = calls.length
  warnings : log.warnings = calls.countP Call.warned
  lastWarned (name : Name) : log.lastWarned.get? name = (lastWarning? calls name).map Call.time

/-- The totals of a log, and which of the calls it has given a warning for. -/
structure Totals (window : Nat) (calls : List Call) (log : MissLog) : Prop where
  misses : log.misses = calls.length
  /-- If the window never elapses, a warning is given for exactly the first call for each name. -/
  warned_iff : NeverElapses window calls → ∀ before call after, calls = before ++ call :: after →
    (call.warned = true ↔ call.name ∉ before.map Call.name)
  /-- If the window never elapses, as many warnings are given as there are different names. -/
  warnings : NeverElapses window calls → log.warnings = (calls.map Call.name).toFinset.card
  /-- If the window has no length, warnings are given for all calls. -/
  ofZero : window = 0 → (∀ call ∈ calls, call.warned = true) ∧ log.warnings = log.misses

variable {window : Nat} {log : MissLog} {calls before after : List Call} {call : Call}

/-! ### One call -/

/-- The last warning for a name is the new call if it warns for the name, and else the former one.
-/
theorem lastWarning?_concat (calls : List Call) (call : Call) (name : Name) :
    lastWarning? (calls ++ [call]) name =
      if call.warned = true ∧ call.name = name then some call else lastWarning? calls name := by
  rw [lastWarning?, List.filter_append]
  split
  next hlast => simp [hlast]
  next hlast =>
    have hdropped : [call].filter (fun call => call.warned && decide (call.name = name)) = [] := by
      simpa using hlast
    rw [hdropped, List.append_nil, lastWarning?]

theorem mem_of_lastWarning? {name : Name} {last : Call}
    (hlast : lastWarning? calls name = some last) :
    last ∈ calls ∧ last.warned = true ∧ last.name = name := by
  simpa using List.mem_of_getLast? hlast

theorem lastWarning?_ne_none_iff {name : Name} :
    lastWarning? calls name ≠ none ↔ ∃ call ∈ calls, call.warned = true ∧ call.name = name := by
  simp [lastWarning?]

/-- A warning is given if the last one for the same name was given a window ago, or none was. -/
theorem Keeps.warned_iff (hkeeps : Keeps window calls log) (name : Name) :
    (log.record name).1 = true ↔
      ∀ last, lastWarning? calls name = some last → window ≤ log.clock - last.time := by
  have hdue : (log.record name).1 = log.isDue name := by
    rw [MissLog.record]
    cases log.isDue name <;> rfl
  rw [hdue, isDue, hkeeps.lastWarned]
  cases lastWarning? calls name with
  | none => simp
  | some last => simp [hkeeps.window]

/-- A log that keeps a history keeps it with one more call, whether the call warns or not. -/
theorem Keeps.record (hkeeps : Keeps window calls log) (name : Name) :
    Keeps window (calls ++ [log.call name]) (log.record name).2 := by
  by_cases hdue : log.isDue name = true
  · have hcall : log.call name = ⟨log.clock, name, true⟩ := by
      rw [MissLog.call, MissLog.record, if_pos hdue]
    rw [record_of_isDue hdue, hcall]
    refine ⟨hkeeps.window, ?_, ?_, fun other => ?_⟩
    · rw [List.length_append, ← hkeeps.misses]
      rfl
    · rw [List.countP_append, ← hkeeps.warnings]
      rfl
    · rw [Table.get?_insert, lastWarning?_concat, hkeeps.lastWarned]
      by_cases hname : name = other <;> simp [hname]
  · have hcall : log.call name = ⟨log.clock, name, false⟩ := by
      rw [MissLog.call, MissLog.record, if_neg hdue]
    rw [record_of_not_isDue hdue, hcall]
    refine ⟨hkeeps.window, ?_, ?_, fun other => ?_⟩
    · rw [List.length_append, ← hkeeps.misses]
      rfl
    · rw [List.countP_append, ← hkeeps.warnings]
      rfl
    · rw [lastWarning?_concat, hkeeps.lastWarned]
      simp

/-! ### All calls -/

namespace Reached

/-- Every log that calls can lead to keeps their history. -/
theorem keeps (hlog : Reached window calls log) : Keeps window calls log := by
  induction hlog with
  | start => exact ⟨rfl, rfl, rfl, fun _ => rfl⟩
  | moveTo time _ ih => exact ⟨ih.window, ih.misses, ih.warnings, ih.lastWarned⟩
  | record name _ ih => exact ih.record name

theorem wait (hlog : Reached window calls log) (milliseconds : Nat) :
    Reached window calls (log.wait milliseconds) :=
  hlog.moveTo (log.clock + milliseconds)

/-- A log that is reached can be gone on from with calls for a list of names. -/
theorem recordAll (hlog : Reached window calls log) (names : List Name) :
    Reached window (calls ++ log.callsFor names) (log.recordAll names) := by
  induction names generalizing calls log with
  | nil =>
      rw [callsFor, List.append_nil]
      exact hlog
  | cons name names ih =>
      rw [callsFor, ← List.singleton_append, ← List.append_assoc]
      exact ih (hlog.record name)

/-- Every call was made of a log that the calls before it had led to. -/
theorem exists_before (hlog : Reached window (before ++ call :: after) log) :
    ∃ earlier : MissLog, Reached window before earlier ∧ call = earlier.call call.name := by
  generalize hcalls : before ++ call :: after = calls at hlog
  induction hlog generalizing after with
  | start => simp at hcalls
  | moveTo time _ ih => exact ih hcalls
  | @record calls log name hlog ih =>
      rcases List.eq_nil_or_concat after with rfl | ⟨init, last, rfl⟩
      · obtain ⟨rfl, hcall⟩ := List.append_inj' hcalls rfl
        cases hcall
        exact ⟨log, hlog, rfl⟩
      · rw [List.concat_eq_append, ← List.cons_append, ← List.append_assoc] at hcalls
        exact ih (List.append_inj' hcalls rfl).1

/-- A call is warned about unless a warning about the same name was given less than a window ago. -/
theorem warned_iff (hlog : Reached window (before ++ call :: after) log) :
    call.warned = true ↔
      ∀ last, lastWarning? before call.name = some last → window ≤ call.time - last.time := by
  obtain ⟨earlier, hearlier, hcall⟩ := hlog.exists_before
  rw [hcall]
  exact hearlier.keeps.warned_iff call.name

/-- A warning has been given about every name that was called for. -/
theorem lastWarning?_ne_none (hlog : Reached window calls log) (hcall : call ∈ calls) :
    lastWarning? calls call.name ≠ none := by
  rw [lastWarning?_ne_none_iff]
  obtain ⟨before, after, rfl⟩ := List.append_of_mem hcall
  by_cases hfirst : call.warned = true
  · exact ⟨call, hcall, hfirst, rfl⟩
  · rw [hlog.warned_iff] at hfirst
    push Not at hfirst
    obtain ⟨last, hlast, -⟩ := hfirst
    obtain ⟨hmem, hwarned, hname⟩ := mem_of_lastWarning? hlast
    exact ⟨last, List.mem_append_left _ hmem, hwarned, hname⟩

/-- Where the window never elapses, the first call for a name is the only one that is warned
about. -/
theorem warned_iff_of_neverElapses (hlog : Reached window (before ++ call :: after) log)
    (hnever : NeverElapses window (before ++ call :: after)) :
    call.warned = true ↔ call.name ∉ before.map Call.name := by
  obtain ⟨earlier, hearlier, -⟩ := hlog.exists_before
  rw [hlog.warned_iff]
  constructor
  · intro hdue hname
    obtain ⟨other, hother, hsame⟩ := List.mem_map.1 hname
    have hwarning := hearlier.lastWarning?_ne_none hother
    rw [hsame] at hwarning
    obtain ⟨last, hlast⟩ := Option.ne_none_iff_exists'.1 hwarning
    obtain ⟨hmem, -, hlastName⟩ := mem_of_lastWarning? hlast
    have hopen := (List.pairwise_append.1 hnever).2.2 last hmem call List.mem_cons_self
      hlastName.symm
    exact absurd (hdue last hlast) (Nat.not_le_of_lt hopen)
  · intro hname last hlast
    obtain ⟨hmem, -, hlastName⟩ := mem_of_lastWarning? hlast
    exact absurd (List.mem_map.2 ⟨last, hmem, hlastName⟩) hname

end Reached

/-- If the calls that are warned about are the first ones for their names, there are as many of them
as names. -/
theorem countP_warned_eq_card
    (hwarned : ∀ before call after, calls = before ++ call :: after →
      (call.warned = true ↔ call.name ∉ before.map Call.name)) :
    calls.countP Call.warned = (calls.map Call.name).toFinset.card := by
  induction calls using List.reverseRecOn with
  | nil => rfl
  | append_singleton calls call ih =>
      have hinit := ih fun before earlier after hcalls =>
        hwarned before earlier (after ++ [call]) (by simp [hcalls])
      have hlast := hwarned calls call [] rfl
      rw [List.countP_append, hinit, List.map_append, List.toFinset_append, List.countP_singleton]
      by_cases hname : call.name ∈ calls.map Call.name
      · rw [if_neg fun hcall => hlast.1 hcall hname, Finset.union_eq_left.2 (by simpa using hname)]
        rfl
      · rw [if_pos (hlast.2 hname), Finset.card_union_of_disjoint (by simpa using hname)]
        rfl

/-- The totals of every log that calls can lead to are as stated. -/
theorem Totals.of_reached (hlog : Reached window calls log) : Totals window calls log where
  misses := hlog.keeps.misses
  warned_iff hnever before call after hcalls := by
    subst hcalls
    exact hlog.warned_iff_of_neverElapses hnever
  warnings hnever := by
    rw [hlog.keeps.warnings]
    apply countP_warned_eq_card
    intro before call after hcalls
    subst hcalls
    exact hlog.warned_iff_of_neverElapses hnever
  ofZero hzero := by
    have hall : ∀ call ∈ calls, call.warned = true := by
      intro call hcall
      obtain ⟨before, after, rfl⟩ := List.append_of_mem hcall
      exact hlog.warned_iff.2 fun last _ => hzero ▸ Nat.zero_le _
    exact ⟨hall, by rw [hlog.keeps.warnings, hlog.keeps.misses, List.countP_eq_length.2 hall]⟩

end MotionScript.MissLog
