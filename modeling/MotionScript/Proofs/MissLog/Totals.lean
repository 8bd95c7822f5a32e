import Mathlib.Data.Finset.Card
import Mathlib.Data.Finset.Dedup
import MotionScript.MissLog
/-!
# Totals of a log

The readings and warnings that a log counts are described by the names alone.  As long as the window
of no name elapses, a warning is given for each name that had none before, and it does not matter in
which order the names came or how much time passed between them.
-/

namespace MotionScript.MissLog

open MotionScript.Expr (Name)

def recordAll (log : MissLog) (names : List Name) : MissLog :=
  names.foldl (fun log name => (log.record name).2) log

theorem recordAll_concat (log : MissLog) (names : List Name) (name : Name) :
    log.recordAll (names ++ [name]) = ((log.recordAll names).record name).2 := by
  simp [recordAll]

/-- Even after a duration no warning that was given is due again, nor will one be that is given in
the meantime. -/
structure StaysOpen (log : MissLog) (duration : Nat) : Prop where
  duration_lt : duration < log.window
  since_lt (name : Name) (time : Nat) : log.lastWarned.get? name = some time →
    log.clock + duration - time < log.window

/-- The names among some that have had no warning yet. -/
def fresh (log : MissLog) (names : List Name) : Finset Name :=
  names.toFinset.filter fun name => log.lastWarned.get? name = none

/-- A later state of a log has counted names, with one warning for each that had none before. -/
structure Counted (log : MissLog) (names : List Name) (later : MissLog) : Prop where
  misses : later.misses = log.misses + names.length
  warnings : later.warnings = log.warnings + (log.fresh names).card
  unwarned (name : Name) : later.lastWarned.get? name = none ↔
    log.lastWarned.get? name = none ∧ name ∉ names

variable {log middle later : MissLog} {duration : Nat}

/-! ### Logs that stay open -/

/-- The first warning about a name is the only one that is due. -/
theorem StaysOpen.isDue_iff (hopen : log.StaysOpen duration) (name : Name) :
    log.isDue name = true ↔ log.lastWarned.get? name = none := by
  unfold isDue
  cases hwarned : log.lastWarned.get? name with
  | none => simp
  | some time =>
      have hsince := hopen.since_lt name time hwarned
      simp only [decide_eq_true_eq, reduceCtorEq, iff_false]
      omega

/-- A log that stays open for a while stays open for the rest of it. -/
theorem StaysOpen.wait {milliseconds : Nat} (hopen : log.StaysOpen (milliseconds + duration)) :
    (log.wait milliseconds).StaysOpen duration where
  duration_lt := Nat.lt_of_le_of_lt (Nat.le_add_left duration milliseconds) hopen.duration_lt
  since_lt name time hwarned := by
    have hsince := hopen.since_lt name time hwarned
    rwa [← Nat.add_assoc] at hsince

theorem record_of_isDue {name : Name} (hdue : log.isDue name = true) :
    (log.record name).2 = { log with
      misses := log.misses + 1
      lastWarned := log.lastWarned.insert name log.clock
      warnings := log.warnings + 1 } := by
  rw [record, if_pos hdue]

theorem record_of_not_isDue {name : Name} (hdue : ¬ log.isDue name = true) :
    (log.record name).2 = { log with misses := log.misses + 1 } := by
  rw [record, if_neg hdue]

/-- A new call does not close a log that stays open. -/
theorem StaysOpen.record (hopen : log.StaysOpen duration) (name : Name) :
    (log.record name).2.StaysOpen duration := by
  by_cases hdue : log.isDue name = true
  · rw [record_of_isDue hdue]
    refine ⟨hopen.duration_lt, fun other time hwarned => ?_⟩
    rw [Table.get?_insert] at hwarned
    split at hwarned
    next =>
      cases hwarned
      simpa using hopen.duration_lt
    next => exact hopen.since_lt other time hwarned
  · rw [record_of_not_isDue hdue]
    exact ⟨hopen.duration_lt, hopen.since_lt⟩

theorem StaysOpen.recordAll (hopen : log.StaysOpen duration) (names : List Name) :
    (log.recordAll names).StaysOpen duration := by
  induction names generalizing log with
  | nil => exact hopen
  | cons name names ih => exact ih (hopen.record name)

/-! ### Counting -/

theorem mem_fresh_iff {name : Name} {names : List Name} :
    name ∈ log.fresh names ↔ name ∈ names ∧ log.lastWarned.get? name = none := by
  simp [fresh]

theorem Counted.wait (log : MissLog) (milliseconds : Nat) :
    Counted log [] (log.wait milliseconds) where
  misses := rfl
  warnings := by simp [MissLog.wait, fresh]
  unwarned name := by simp [MissLog.wait]

/-- Names that are counted one list after the other are counted as one list. -/
theorem Counted.append {first second : List Name} (hfirst : Counted log first middle)
    (hsecond : Counted middle second later) : Counted log (first ++ second) later where
  misses := by
    rw [hsecond.misses, hfirst.misses, List.length_append, Nat.add_assoc]
  warnings := by
    have hunion : log.fresh (first ++ second) = log.fresh first ∪ middle.fresh second := by
      ext name
      simp only [mem_fresh_iff, Finset.mem_union, List.mem_append, hfirst.unwarned]
      tauto
    have hdisjoint : Disjoint (log.fresh first) (middle.fresh second) := by
      rw [Finset.disjoint_left]
      intro name hname hother
      rw [mem_fresh_iff] at hname hother
      exact ((hfirst.unwarned name).1 hother.2).2 hname.1
    calc
      later.warnings = log.warnings + (log.fresh first).card + (middle.fresh second).card := by
        rw [hsecond.warnings, hfirst.warnings]
      _ = log.warnings + (log.fresh (first ++ second)).card := by
        rw [hunion, Finset.card_union_of_disjoint hdisjoint, Nat.add_assoc]
  unwarned name := by
    rw [hsecond.unwarned, hfirst.unwarned, List.mem_append]
    tauto

/-- One call counts its name, with a warning if the name is fresh. -/
theorem Counted.record (hopen : log.StaysOpen duration) (name : Name) :
    Counted log [name] (log.record name).2 := by
  by_cases hdue : log.isDue name = true
  · have hnew := (hopen.isDue_iff name).1 hdue
    rw [record_of_isDue hdue]
    refine ⟨rfl, ?_, fun other => ?_⟩
    · simp [fresh, Finset.filter_singleton, hnew]
    · simp only [Table.get?_insert, List.mem_singleton]
      by_cases hname : name = other <;> simp [hname, eq_comm]
  · have hold : log.lastWarned.get? name ≠ none := fun hnew => hdue ((hopen.isDue_iff name).2 hnew)
    rw [record_of_not_isDue hdue]
    refine ⟨rfl, ?_, fun other => ?_⟩
    · simp [fresh, Finset.filter_singleton, hold]
    · simp only [List.mem_singleton]
      constructor
      · exact fun hother => ⟨hother, fun heq => hold (heq ▸ hother)⟩
      · exact And.left

theorem Counted.recordAll (hopen : log.StaysOpen duration) (names : List Name) :
    Counted log names (log.recordAll names) := by
  induction names generalizing log with
  | nil => exact Counted.wait log 0
  | cons name names ih =>
      exact (Counted.record hopen name).append (ih (hopen.record name))

/-- The totals do not depend on the order of the names. -/
theorem Counted.totals_eq {names others : List Name} {left right : MissLog}
    (hleft : Counted log names left) (hright : Counted log others right)
    (hperm : names.Perm others) :
    left.misses = right.misses ∧ left.warnings = right.warnings := by
  rw [hleft.misses, hright.misses, hleft.warnings, hright.warnings, fresh, fresh,
    hperm.length_eq, List.toFinset_eq_of_perm names others hperm]
  exact ⟨rfl, rfl⟩

end MotionScript.MissLog
