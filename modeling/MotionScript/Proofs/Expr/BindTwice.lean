import MotionScript.Expr.Bind
import MotionScript.Proofs.Environment.Answers
import MotionScript.Proofs.Expr.BindEvaluate
/-!
# Binding twice is binding once

Binding changes no assignment, so a second binding shields the same names as the first.  What the
first one has a value for is a constant by then, and the rest is left to the second, as if one
binding had asked both for a value.
-/

namespace MotionScript

open MotionScript.Expr (Name)

/-! ### Substituting twice -/

namespace Expr

/-- Constants write nothing, so putting them in place of references leaves the assignments. -/
theorem writes_substitute (value? : Name → Option Float32) (e : Expr) :
    (e.substitute value?).writes = e.writes := by
  have hflatMap {es : List Expr} (ih : ∀ e ∈ es, (e.substitute value?).writes = e.writes) :
      allWrites (substituteAll value? es) = allWrites es := by
    rw [allWrites_eq_flatMap, allWrites_eq_flatMap, substituteAll_eq_map, List.flatMap_map,
      List.flatMap_def, List.flatMap_def, List.map_congr_left ih]
  induction e with
  | constant value => rfl
  | reference scope name =>
      rw [substitute]
      split <;> rfl
  | unary operator operand ih => rw [substitute, writes, writes, ih]
  | binary operator left right ihLeft ihRight => rw [substitute, writes, writes, ihLeft, ihRight]
  | conditional condition whenTrue whenFalse ihCondition ihTrue ihFalse =>
      rw [substitute, writes, writes, ihCondition, ihTrue, ihFalse]
  | assign operator scope name value ih => rw [substitute, writes, writes, ih]
  | sequence statements ih => rw [substitute, writes, writes, hflatMap ih]
  | call function arguments ih => rw [substitute, writes, writes, hflatMap ih]

theorem writes_bind (binders : Binders) (values : List Float32) (e : Expr) :
    (e.bind binders values).writes = e.writes :=
  writes_substitute _ e

/-- A second substitution is asked for a value where the first one has none. -/
theorem substitute_substitute (first second : Name → Option Float32) (e : Expr) :
    (e.substitute first).substitute second =
      e.substitute fun name => (first name).or (second name) := by
  have hmap {es : List Expr} (ih : ∀ e ∈ es, (e.substitute first).substitute second =
      e.substitute fun name => (first name).or (second name)) :
      substituteAll second (substituteAll first es) =
        substituteAll (fun name => (first name).or (second name)) es := by
    simp only [substituteAll_eq_map, List.map_map]
    exact List.map_congr_left ih
  induction e with
  | constant value => rfl
  | reference scope name =>
      cases hfirst : first (scope, name) with
      | some value => simp only [substitute, hfirst, Option.some_or]
      | none => simp only [substitute, hfirst, Option.none_or]
  | unary operator operand ih => simp only [substitute, ih]
  | binary operator left right ihLeft ihRight => simp only [substitute, ihLeft, ihRight]
  | conditional condition whenTrue whenFalse ihCondition ihTrue ihFalse =>
      simp only [substitute, ihCondition, ihTrue, ihFalse]
  | assign operator scope name value ih => simp only [substitute, ih]
  | sequence statements ih => simp only [substitute, hmap ih]
  | call function arguments ih => simp only [substitute, hmap ih]

end Expr

/-! ### One context for two -/

namespace Binders

/-- The value that the binder of a name has among the given values. -/
def value? (binders : Binders) (values : List Float32) (name : Name) : Option Float32 :=
  (binders.get? name).bind (Binder.value? values)

/-- Binders that put constants in place of the names that have a value. -/
def ofValues (value? : Name → Option Float32) (names : List Name) : Binders :=
  names.foldl (fun binders name =>
    match value? name with
    | some value => binders.insert name (.constant value)
    | none => binders) ∅

/-- The values of one context, and those of a second one for the names that the first one has no
value for. -/
def followedBy (first : Binders) (firstValues : List Float32) (second : Binders)
    (secondValues : List Float32) : Binders :=
  ofValues (fun name => (first.value? firstValues name).or (second.value? secondValues name))
    (first.keys ++ second.keys)

theorem mem_keys_of_value? {binders : Binders} {values : List Float32} {name : Name}
    {value : Float32} (hvalue : binders.value? values name = some value) :
    name ∈ binders.keys :=
  Expr.mem_keys_of_boundValue? ((if_neg List.not_mem_nil).trans hvalue)

/-- The table that is built up from a list has a constant for each listed name with a value. -/
theorem get?_foldl_insert (value? : Name → Option Float32) (names : List Name) (binders : Binders)
    (name : Name) :
    (names.foldl (fun binders name =>
      match value? name with
      | some value => Table.insert binders name (.constant value)
      | none => binders) binders).get? name =
      if name ∈ names then ((value? name).map .constant).or (binders.get? name)
      else binders.get? name := by
  induction names generalizing binders with
  | nil => rw [List.foldl_nil, if_neg List.not_mem_nil]
  | cons head names ih =>
      rw [List.foldl_cons, ih]
      by_cases hname : head = name
      · subst hname
        cases hvalue : value? head <;> simp
      · cases hvalue : value? head <;> simp [Table.get?_insert, hname, Ne.symm hname]

theorem get?_ofValues {value? : Name → Option Float32} {names : List Name}
    (hcover : ∀ name value, value? name = some value → name ∈ names) (name : Name) :
    (ofValues value? names).get? name = (value? name).map .constant := by
  rw [ofValues, get?_foldl_insert, Table.get?_empty, Option.or_none]
  split
  next => rfl
  next hname =>
    cases hvalue : value? name with
    | some value => exact absurd (hcover name value hvalue) hname
    | none => rfl

/-- In the merged context the first one has its say before the second one. -/
theorem get?_followedBy (first second : Binders) (firstValues secondValues : List Float32)
    (name : Name) :
    (first.followedBy firstValues second secondValues).get? name =
      ((first.value? firstValues name).or (second.value? secondValues name)).map .constant := by
  refine get?_ofValues (fun name value hvalue => ?_) name
  rw [List.mem_append]
  obtain hfirst | ⟨_, hsecond⟩ := Option.or_eq_some_iff.1 hvalue
  · exact Or.inl (mem_keys_of_value? hfirst)
  · exact Or.inr (mem_keys_of_value? hsecond)

theorem value?_followedBy (first second : Binders) (firstValues secondValues values : List Float32)
    (name : Name) :
    (first.followedBy firstValues second secondValues).value? values name =
      (first.value? firstValues name).or (second.value? secondValues name) := by
  rw [value?, get?_followedBy]
  cases (first.value? firstValues name).or (second.value? secondValues name) <;> rfl

theorem value?_of_isEmpty {binders : Binders} (hempty : binders.isEmpty = true)
    (values : List Float32) (name : Name) : binders.value? values name = none := by
  have hentries : binders.entries = [] := List.isEmpty_iff.1 hempty
  rw [value?, Table.get?, hentries]
  rfl

end Binders

/-! ### Binding twice -/

namespace Expr

/-- Only the values that a context gives to names matter to a bind. -/
theorem bind_congr {first second : Binders} {firstValues secondValues : List Float32}
    (hvalues : ∀ name, first.value? firstValues name = second.value? secondValues name)
    (e : Expr) : e.bind first firstValues = e.bind second secondValues := by
  have hbound : boundValue? first firstValues e.writes =
      boundValue? second secondValues e.writes := by
    funext name
    exact congrArg (if name ∈ e.writes then none else ·) (hvalues name)
  rw [bind, bind, hbound]

/-- The merged context binds what one of the two does, the first one before the second one. -/
theorem boundValue?_followedBy (first second : Binders) (firstValues secondValues : List Float32)
    (written : List Name) (name : Name) :
    boundValue? (first.followedBy firstValues second secondValues) [] written name =
      (boundValue? first firstValues written name).or
        (boundValue? second secondValues written name) := by
  by_cases hname : name ∈ written
  · simp only [boundValue?_of_mem hname, Option.none_or]
  · simp only [boundValue?, if_neg hname]
    exact Binders.value?_followedBy first second firstValues secondValues [] name

/-- Two binds one after the other are one bind with the merged context. -/
theorem bind_bind_eq_bind_followedBy (first second : Binders)
    (firstValues secondValues : List Float32) (e : Expr) :
    (e.bind first firstValues).bind second secondValues =
      e.bind (first.followedBy firstValues second secondValues) [] := by
  rw [bind, writes_bind, bind, substitute_substitute, bind]
  congr
  funext name
  exact (boundValue?_followedBy first second firstValues secondValues e.writes name).symm

/-- A context without binders binds nothing. -/
theorem bind_of_isEmpty {binders : Binders} (hempty : binders.isEmpty = true)
    (values : List Float32) (e : Expr) : e.bind binders values = e := by
  have hnone : boundValue? binders values e.writes = fun _ => none := by
    funext name
    exact ite_eq_left_iff.2 fun _ => Binders.value?_of_isEmpty hempty values name
  rw [bind, hnone, substitute_none]

/-- Two bindings in a row are one binding of the constants that the first context has, and of those
of the second context for the names that the first one has no value for.  A context without binders
leaves an expression as it is, a context that is bound again changes nothing more, and two contexts
that nowhere have different values can be bound in either order. -/
theorem bind_bind (e : Expr) (first second : Binders) (firstValues secondValues : List Float32) :
    (e.bind first firstValues).bind second secondValues =
        e.bind (first.followedBy firstValues second secondValues) [] ∧
      (∀ name, (first.followedBy firstValues second secondValues).get? name =
        ((first.value? firstValues name).or (second.value? secondValues name)).map .constant) ∧
      (first.isEmpty = true → e.bind first firstValues = e) ∧
      (e.bind first firstValues).bind first firstValues = e.bind first firstValues ∧
      ((∀ name value other, first.value? firstValues name = some value →
          second.value? secondValues name = some other → value = other) →
        (e.bind first firstValues).bind second secondValues =
          (e.bind second secondValues).bind first firstValues) := by
  refine ⟨bind_bind_eq_bind_followedBy first second firstValues secondValues e,
    Binders.get?_followedBy first second firstValues secondValues,
    fun hempty => bind_of_isEmpty hempty firstValues e, ?_, fun hshared => ?_⟩
  · rw [bind_bind_eq_bind_followedBy]
    refine bind_congr (fun name => ?_) e
    rw [Binders.value?_followedBy, Option.or_self]
  · rw [bind_bind_eq_bind_followedBy, bind_bind_eq_bind_followedBy]
    refine bind_congr (fun name => ?_) e
    rw [Binders.value?_followedBy, Binders.value?_followedBy]
    cases hfirst : first.value? firstValues name with
    | none => rw [Option.none_or, Option.or_none]
    | some value =>
        cases hsecond : second.value? secondValues name with
        | none => rfl
        | some other => rw [Option.some_or, Option.some_or, hshared name value other hfirst hsecond]

/-- An argument that is out of range for the first context is bound by the second one, a name that
the expression writes is bound by neither, and the name that both have a value for has the same in
both. -/
theorem bind_bind_shielded :
    let e : Expr := .sequence [
      .assign .set .temp "x" (.binary .add (.reference .query "a") (.reference .variable "b")),
      .reference .temp "x"]
    let first : Binders := (((∅ : Binders).insert (.query, "a") (.argument 1)).insert
      (.variable, "b") (.constant 2)).insert (.temp, "x") (.constant 9)
    let second : Binders :=
      ((∅ : Binders).insert (.query, "a") (.argument 0)).insert (.variable, "b") (.argument 1)
    let bound : Expr := .sequence [
      .assign .set .temp "x" (.binary .add (.constant 5) (.constant 2)), .reference .temp "x"]
    (∀ name value other, first.value? [7] name = some value →
        second.value? [5, 2] name = some other → value = other) ∧
      (e.bind first [7]).bind second [5, 2] = bound ∧
      (e.bind second [5, 2]).bind first [7] = bound ∧
      (∅ : Binders).isEmpty = true ∧ e.bind ∅ [7] = e := by
  intro e first second bound
  have hshared : ∀ name value other, first.value? [7] name = some value →
      second.value? [5, 2] name = some other → value = other := by
    intro name value other hfirst hsecond
    have hname : name ∈ [(.query, "a"), (.variable, "b")] := Binders.mem_keys_of_value? hsecond
    obtain rfl | hname := List.mem_cons.1 hname
    · cases hfirst
    · rw [List.mem_singleton.1 hname] at hfirst hsecond
      exact (Option.some.inj hfirst).symm.trans (Option.some.inj hsecond)
  have hbound : (e.bind first [7]).bind second [5, 2] = bound := rfl
  obtain ⟨_, _, _, _, hcommute⟩ := bind_bind e first second [7] [5, 2]
  obtain ⟨_, _, hidentity, _⟩ := bind_bind e ∅ second [7] [5, 2]
  exact ⟨hshared, hbound, (hcommute hshared).symm.trans hbound, rfl, hidentity rfl⟩

end Expr

end MotionScript
