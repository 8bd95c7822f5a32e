import Mathlib.Data.Finset.Card
import Mathlib.Data.Finset.Dedup
import MotionScript.Table
/-!
# Insertions in a row

What a table holds after any number of insertions is determined by the list of them: the keys stand
in the order in which each came first, and each has the value that came last.
-/

namespace MotionScript.Table

variable {κ α : Type} [DecidableEq κ]

def insertAll (table : Table κ α) (inserts : List (κ × α)) : Table κ α :=
  inserts.foldl (fun table entry => table.insert entry.1 entry.2) table

theorem insertAll_concat (table : Table κ α) (inserts : List (κ × α)) (entry : κ × α) :
    table.insertAll (inserts ++ [entry]) =
      (table.insertAll inserts).insert entry.1 entry.2 := by
  rw [insertAll, List.foldl_append]
  rfl

/-- No key is there twice, each stands where it came first, and no others are there. -/
theorem keys_insertAll (inserts : List (κ × α)) :
    ((∅ : Table κ α).insertAll inserts).keys = (inserts.map Prod.fst).eraseDups := by
  induction inserts using List.reverseRecOn with
  | nil => rfl
  | append_singleton inserts entry ih =>
      rw [insertAll_concat, keys_insert, ih, List.map_append, List.map_singleton,
        List.eraseDups_append]
      simp only [List.mem_eraseDups]
      by_cases hknown : entry.1 ∈ inserts.map Prod.fst
      · rw [if_pos hknown]
        simp [List.removeAll, hknown]
      · rw [if_neg hknown]
        simp [List.removeAll, hknown, List.eraseDups_cons]

theorem nodup_keys_insertAll (inserts : List (κ × α)) :
    ((∅ : Table κ α).insertAll inserts).keys.Nodup := by
  induction inserts using List.reverseRecOn with
  | nil => exact List.nodup_nil
  | append_singleton inserts entry ih =>
      rw [insertAll_concat]
      exact nodup_keys_insert ih entry.1 entry.2

/-- A key has the value that was inserted for it last. -/
theorem get?_insertAll (inserts : List (κ × α)) (key : κ) :
    ((∅ : Table κ α).insertAll inserts).get? key = inserts.reverse.lookup key := by
  induction inserts using List.reverseRecOn with
  | nil => rfl
  | append_singleton inserts entry ih =>
      rw [insertAll_concat, get?_insert, ih, List.reverse_append, List.reverse_singleton,
        List.singleton_append, List.lookup_cons]
      by_cases hkey : entry.1 = key
      · simp [hkey]
      · rw [if_neg hkey, beq_eq_false_iff_ne.2 (Ne.symm hkey)]

/-- There are as many entries as keys that were inserted. -/
theorem size_insertAll (inserts : List (κ × α)) :
    ((∅ : Table κ α).insertAll inserts).size = (inserts.map Prod.fst).toFinset.card := by
  have hkeys : (inserts.map Prod.fst).toFinset =
      ((∅ : Table κ α).insertAll inserts).keys.toFinset := by
    ext key
    rw [keys_insertAll, List.mem_toFinset, List.mem_toFinset, List.mem_eraseDups]
  rw [hkeys, List.toFinset_card_of_nodup (nodup_keys_insertAll inserts), keys, List.length_map,
    size]

end MotionScript.Table
