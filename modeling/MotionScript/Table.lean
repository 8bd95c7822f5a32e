/-!
# Tables

A table gives values to keys and remembers the order in which its keys came.  Giving a key a new
value leaves the key at its place.
-/

namespace MotionScript

/-- A finite map whose entries stand in the order of their keys' first insertion. -/
structure Table (κ α : Type) where
  entries : List (κ × α)

namespace Table

variable {κ α : Type}

instance : EmptyCollection (Table κ α) := ⟨⟨[]⟩⟩

instance : Inhabited (Table κ α) := ⟨∅⟩

def keys (table : Table κ α) : List κ :=
  table.entries.map Prod.fst

def size (table : Table κ α) : Nat :=
  table.entries.length

def isEmpty (table : Table κ α) : Bool :=
  table.entries.isEmpty

variable [DecidableEq κ]

def find? (key : κ) : List (κ × α) → Option α
  | [] => none
  | (k, value) :: entries => if k = key then some value else find? key entries

/-- The entries with a value for a key, put in place of its entry or at the end. -/
def place (key : κ) (value : α) : List (κ × α) → List (κ × α)
  | [] => [(key, value)]
  | (k, old) :: entries =>
    if k = key then (k, value) :: entries else (k, old) :: place key value entries

def get? (table : Table κ α) (key : κ) : Option α :=
  find? key table.entries

def insert (table : Table κ α) (key : κ) (value : α) : Table κ α :=
  ⟨place key value table.entries⟩

def erase (table : Table κ α) (key : κ) : Table κ α :=
  ⟨table.entries.filter fun entry => decide (entry.1 ≠ key)⟩

/-! ### Each operation through the values and the keys -/

@[simp]
theorem get?_empty (key : κ) : (∅ : Table κ α).get? key = none := rfl

/-- A value that is placed is found under its key, and nothing changes under the others. -/
theorem find?_place (key other : κ) (value : α) (entries : List (κ × α)) :
    find? other (place key value entries) =
      if key = other then some value else find? other entries := by
  induction entries with
  | nil => simp [place, find?]
  | cons entry entries ih =>
    obtain ⟨k, old⟩ := entry
    by_cases hk : k = key
    · subst hk
      by_cases hother : k = other <;> simp [place, find?, hother]
    · by_cases hother : k = other
      · subst hother
        simp [place, find?, hk, Ne.symm hk]
      · simp [place, find?, hk, hother, ih]

theorem get?_insert (table : Table κ α) (key other : κ) (value : α) :
    (table.insert key value).get? other = if key = other then some value else table.get? other :=
  find?_place key other value table.entries

@[simp]
theorem get?_insert_self (table : Table κ α) (key : κ) (value : α) :
    (table.insert key value).get? key = some value := by
  simp [get?_insert]

theorem place_of_find? {key : κ} {value : α} {entries : List (κ × α)}
    (hfound : find? key entries = some value) : place key value entries = entries := by
  induction entries with
  | nil => cases hfound
  | cons entry entries ih =>
    obtain ⟨k, old⟩ := entry
    by_cases hk : k = key
    · simp only [find?, hk, if_true, Option.some.injEq] at hfound
      simp [place, hk, hfound]
    · simp only [find?, hk, if_false] at hfound
      simp [place, hk, ih hfound]

/-- Giving a key the value that it has changes nothing. -/
theorem insert_of_get? {table : Table κ α} {key : κ} {value : α}
    (hfound : table.get? key = some value) : table.insert key value = table :=
  congrArg Table.mk (place_of_find? hfound)

/-- What is left without a key is not found under it, and nothing changes under the others. -/
theorem find?_filter_ne (key other : κ) (entries : List (κ × α)) :
    find? other (entries.filter fun entry => decide (entry.1 ≠ key)) =
      if key = other then none else find? other entries := by
  induction entries with
  | nil => simp [find?]
  | cons entry entries ih =>
    obtain ⟨k, value⟩ := entry
    by_cases hk : k = key
    · by_cases hother : key = other
      · simpa [hk, hother, find?] using ih
      · simpa [hk, hother, find?] using ih
    · by_cases hother : k = other
      · subst hother
        simp [hk, find?, Ne.symm hk]
      · simpa [hk, hother, find?] using ih

theorem get?_erase (table : Table κ α) (key other : κ) :
    (table.erase key).get? other = if key = other then none else table.get? other :=
  find?_filter_ne key other table.entries

theorem find?_eq_none_iff (key : κ) (entries : List (κ × α)) :
    find? key entries = none ↔ key ∉ entries.map Prod.fst := by
  induction entries with
  | nil => simp [find?]
  | cons entry entries ih =>
    obtain ⟨k, value⟩ := entry
    by_cases hk : k = key
    · simp [find?, hk]
    · simp [find?, hk, ih, Ne.symm hk]

theorem get?_eq_none_iff (table : Table κ α) (key : κ) :
    table.get? key = none ↔ key ∉ table.keys :=
  find?_eq_none_iff key table.entries

/-- Placing a value keeps the order of the keys, and a new key comes last. -/
theorem map_fst_place (key : κ) (value : α) (entries : List (κ × α)) :
    (place key value entries).map Prod.fst =
      if key ∈ entries.map Prod.fst then entries.map Prod.fst
      else entries.map Prod.fst ++ [key] := by
  induction entries with
  | nil => simp [place]
  | cons entry entries ih =>
    obtain ⟨k, old⟩ := entry
    by_cases hk : k = key
    · simp [place, hk]
    · simp only [place, hk, if_false, List.map_cons, ih, List.mem_cons, Ne.symm hk, false_or]
      split <;> simp

/-- A known key stays at its place and a new one comes last. -/
theorem keys_insert (table : Table κ α) (key : κ) (value : α) :
    (table.insert key value).keys =
      if key ∈ table.keys then table.keys else table.keys ++ [key] :=
  map_fst_place key value table.entries

/-- Giving a key a value makes no second entry for it. -/
theorem nodup_keys_insert {table : Table κ α} (hnodup : table.keys.Nodup) (key : κ) (value : α) :
    (table.insert key value).keys.Nodup := by
  rw [keys_insert]
  split
  · exact hnodup
  next hnew =>
    rw [List.nodup_append]
    refine ⟨hnodup, List.pairwise_singleton _ key, fun old hold last hlast heq => hnew ?_⟩
    rwa [← List.mem_singleton.1 hlast, ← heq]

end Table

end MotionScript
