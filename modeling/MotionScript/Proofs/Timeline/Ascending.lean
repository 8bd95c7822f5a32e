import MotionScript.Proofs.Number.Order
import MotionScript.Timeline
/-!
# Times in order

Entries that a timeline accepts have finite times that do not descend, and entries with finite times
are accepted.
-/

namespace MotionScript.Timeline

variable {β : Type} {time : β → Float32} {entries : List β}

/-- Finite times that do not descend. -/
structure Ascending (time : β → Float32) (entries : List β) : Prop where
  isFinite : ∀ entry ∈ entries, (time entry).isFinite = true
  pairwise : entries.Pairwise fun left right =>
    Single.level (time left) ≤ Single.level (time right)

/-- A timeline that is accepted has its entries in order of their times. -/
theorem Ascending.of_ofEntries {fault : Float32 → ConstructionFault} {sorted : List β}
    (hentries : ofEntries time fault entries = .ok sorted) : Ascending time sorted := by
  rw [ofEntries] at hentries
  split at hentries
  · cases hentries
  next hnone =>
    cases hentries
    have hfinite : ∀ entry ∈ sort time entries, (time entry).isFinite = true := by
      intro entry hmem
      have hmember : time entry ∈ entries.map time :=
        List.mem_map_of_mem ((sort_perm time entries).mem_iff.1 hmem)
      have htested := List.find?_eq_none.1 hnone _ hmember
      rwa [Bool.not_eq_true, Bool.not_eq_false'] at htested
    refine ⟨hfinite, (pairwise_sort time entries).imp_of_mem ?_⟩
    intro left right hleft hright hrank
    exact Single.level_le_of_rank_le (Single.isNaN_of_isFinite (hfinite left hleft))
      (Single.isNaN_of_isFinite (hfinite right hright)) hrank

/-- Entries with finite times are accepted. -/
theorem ofEntries_of_isFinite (fault : Float32 → ConstructionFault)
    (hfinite : ∀ entry ∈ entries, (time entry).isFinite = true) :
    ofEntries time fault entries = .ok (sort time entries) := by
  have hnone : notFinite? time entries = none := by
    refine List.find?_eq_none.2 fun t ht => ?_
    obtain ⟨entry, hmem, rfl⟩ := List.mem_map.1 ht
    rw [hfinite entry hmem]
    exact Bool.false_ne_true
  rw [ofEntries, hnone]

/-- Entries that are in the order of their times are kept as they are. -/
theorem ofEntries_of_pairwise (fault : Float32 → ConstructionFault)
    (hfinite : ∀ entry ∈ entries, (time entry).isFinite = true)
    (hordered : entries.Pairwise fun left right =>
      Single.rank (time left) ≤ Single.rank (time right)) :
    ofEntries time fault entries = .ok entries := by
  rw [ofEntries_of_isFinite fault hfinite]
  exact congrArg Except.ok (List.mergeSort_of_pairwise (hordered.imp decide_eq_true))

theorem Ascending.isNaN (hascending : Ascending time entries) {entry : β}
    (hmem : entry ∈ entries) : (time entry).isNaN = false :=
  Single.isNaN_of_isFinite (hascending.isFinite entry hmem)

theorem Ascending.sublist (hascending : Ascending time entries) {fewer : List β}
    (hfewer : fewer.Sublist entries) : Ascending time fewer :=
  ⟨fun entry hmem => hascending.isFinite entry (hfewer.subset hmem),
    hascending.pairwise.sublist hfewer⟩

/-- What stands further back has no smaller time. -/
theorem Ascending.level_le {front back : List β} (hascending : Ascending time (front ++ back))
    {left right : β} (hleft : left ∈ front) (hright : right ∈ back) :
    Single.level (time left) ≤ Single.level (time right) :=
  (List.pairwise_append.1 hascending.pairwise).2.2 left hleft right hright

end MotionScript.Timeline
