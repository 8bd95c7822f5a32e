import MotionScript.Error
import MotionScript.Number.Single
/-!
# Timelines

Nodes of curves and keys of channels are laid out along time.  Their times have to be finite, and
they are kept in the order of their times, those of one rank in the order in which they were given.
-/

namespace MotionScript.Timeline

variable {β : Type}

/-- The first time among the entries that is not finite. -/
def notFinite? (time : β → Float32) (entries : List β) : Option Float32 :=
  (entries.map time).find? fun t => !t.isFinite

def precedes (time : β → Float32) (left right : β) : Bool :=
  decide (Single.rank (time left) ≤ Single.rank (time right))

def sort (time : β → Float32) (entries : List β) : List β :=
  entries.mergeSort (precedes time)

/-- The entries in the order of their times, given how to report a time that is not finite. -/
def ofEntries (time : β → Float32) (fault : Float32 → ConstructionFault) (entries : List β) :
    Except ConstructionFault (List β) :=
  match notFinite? time entries with
  | some bad => .error (fault bad)
  | none => .ok (sort time entries)

theorem sort_perm (time : β → Float32) (entries : List β) : (sort time entries).Perm entries :=
  List.mergeSort_perm _ _

theorem precedes_trans (time : β → Float32) (left middle right : β)
    (hleft : precedes time left middle = true) (hright : precedes time middle right = true) :
    precedes time left right = true := by
  simp only [precedes, decide_eq_true_eq] at *
  omega

theorem precedes_total (time : β → Float32) (left right : β) :
    (precedes time left right || precedes time right left) = true := by
  simp only [precedes, Bool.or_eq_true, decide_eq_true_eq]
  omega

theorem pairwise_sort (time : β → Float32) (entries : List β) :
    (sort time entries).Pairwise fun left right =>
      Single.rank (time left) ≤ Single.rank (time right) := by
  simpa only [sort, precedes, decide_eq_true_eq] using
    List.pairwise_mergeSort (precedes_trans time) (precedes_total time) entries

/-- Entries that are in order already keep their order among the others. -/
theorem sublist_sort (time : β → Float32) {entries fewer : List β}
    (hordered : fewer.Pairwise fun left right =>
      Single.rank (time left) ≤ Single.rank (time right)) (hfewer : fewer.Sublist entries) :
    fewer.Sublist (sort time entries) :=
  List.sublist_mergeSort (precedes_trans time) (precedes_total time)
    (hordered.imp decide_eq_true) hfewer

end MotionScript.Timeline
