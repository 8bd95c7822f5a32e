import MotionScript.Proofs.CurveTable.Settled
import MotionScript.Proofs.Lists
import MotionScript.Proofs.Table.Inserts
import MotionScript.Proofs.Template.Loading
/-!
# Sets of curves from definitions

A set is a map in the order of first insertion, and the set of an object is what its members insert,
one after the other.  Each member is accepted or turned down on its own: its key has to name a
variable, and its definition has to describe a curve.  The first member that is turned down decides
about the object.
-/

namespace MotionScript.CurveTable

open MotionScript.TemplateCache (Sound)

/-! ### Names of variables -/

/-- A word is dropped exactly from the texts that start with it. -/
theorem dropWord?_eq_some_iff {word text rest : String} :
    variableName?.dropWord? word text = some rest ↔ text = word ++ rest := by
  rw [variableName?.dropWord?]
  split
  next hprefix =>
    obtain ⟨tail, htail⟩ := List.isPrefixOf_iff_prefix.1 hprefix
    rw [← htail, ← String.length_toList, List.drop_left, Option.some.injEq,
      ← String.toList_inj, ← String.toList_inj, String.toList_append, String.toList_ofList,
      ← htail, List.append_right_inj]
  next hprefix =>
    refine ⟨nofun, ?_⟩
    rintro rfl
    refine absurd (List.isPrefixOf_iff_prefix.2 ?_) hprefix
    rw [String.toList_append]
    exact List.prefix_append _ _

/-- No key starts with both words. -/
theorem variable_append_ne {rest name : String} : "variable." ++ rest ≠ "v." ++ name := by
  intro hsame
  have hchars := congrArg String.toList hsame
  rw [String.toList_append, String.toList_append] at hchars
  cases hchars

/-- A key names a variable behind the word or the letter of the scope. -/
theorem variableName?_eq_some_iff {key name : String} :
    variableName? key = some name ↔
      name ≠ "" ∧ (key = "variable." ++ name ∨ key = "v." ++ name) := by
  have hword : Scope.variable.keyword ++ "." = "variable." := rfl
  have hletter : Scope.variable.letter ++ "." = "v." := rfl
  have hnamed : (!name.isEmpty) = true ↔ name ≠ "" := by simp
  rw [variableName?, hword, hletter, Option.filter_eq_some_iff, hnamed, and_comm]
  refine and_congr_right fun _ => ?_
  rw [← dropWord?_eq_some_iff, ← dropWord?_eq_some_iff]
  cases hlong : variableName?.dropWord? "variable." key with
  | none => simp
  | some rest =>
      have hshort : variableName?.dropWord? "v." key ≠ some name := by
        rw [ne_eq, dropWord?_eq_some_iff, dropWord?_eq_some_iff.1 hlong]
        exact variable_append_ne
      simp [hshort]

/-! ### Members of an object -/

/-- What a member of an object inserts: a curve, under the variable that the key names. -/
def entryOf (options : ParseOptions) (member : String × Json) :
    Except LoadError (String × Curve Expr Float32) :=
  match variableName? member.1 with
  | none => .error (.construction (.notVariableName member.1))
  | some name => (loaded options (Curve.ofJson member.2)).map (name, ·)

section Members

variable (options : ParseOptions)

/-- Loading one member adds its entry or fails, whatever is in the cache. -/
theorem isStable_load (set : CurveTable) (member : String × Json) :
    loaded options (load set member.1 member.2) =
        (entryOf options member).map (fun entry => set.insert entry.1 entry.2) ∧
      IsStable options (load set member.1 member.2) := by
  rw [load, entryOf]
  cases variableName? member.1 with
  | none => exact ⟨rfl, .fault _⟩
  | some name =>
      have hrun := (Curve.isStable_ofJson options member.2).run_bind
        fun curve => .same (set.insert name curve)
      refine ⟨hrun.1.trans ?_, hrun.2⟩
      cases loaded options (Curve.ofJson member.2) <;> rfl

/-- The members insert one after the other what each of them stands for. -/
theorem isStable_foldlM (set : CurveTable) (members : List (String × Json)) :
    loaded options (members.foldlM (fun set member => load set member.1 member.2) set) =
        (members.mapM (entryOf options)).map set.insertAll ∧
      IsStable options (members.foldlM (fun set member => load set member.1 member.2) set) := by
  induction members generalizing set with
  | nil => exact ⟨rfl, .same set⟩
  | cons member members ih =>
      obtain ⟨hloaded, hstable⟩ := isStable_load options set member
      rw [List.foldlM_cons, List.mapM_cons]
      have hrun := hstable.run_bind fun next => (ih next).2
      refine ⟨hrun.1.trans ?_, hrun.2⟩
      rw [hloaded]
      cases entryOf options member with
      | error error => rfl
      | ok entry =>
          change loaded options _ = _
          rw [(ih _).1]
          cases members.mapM (entryOf options) <;> rfl

end Members

/-- A set of curves is a map in the order of first insertion: names are distinct and stand where
they came first, each with the curve that came last.  The set of an object is what its members
insert, under the names that their keys have without the prefix; if a member is turned down, so is
the object, with the fault of the first such member. -/
theorem ofJson_inserts :
    (∀ inserts : List (String × Curve Expr Float32),
      (ofInserts inserts).keys.Nodup ∧
      (ofInserts inserts).keys = (inserts.map Prod.fst).eraseDups ∧
      (∀ name, (ofInserts inserts).get? name = inserts.reverse.lookup name) ∧
      (ofInserts inserts).size = (inserts.map Prod.fst).toFinset.card) ∧
    (∀ key name, variableName? key = some name ↔
      name ≠ "" ∧ (key = "variable." ++ name ∨ key = "v." ++ name)) ∧
    ∀ (options : ParseOptions) (cache : TemplateCache) (members : List (String × Json)),
      Sound options cache →
        let outcome := ((ofJson (.object members)).run.run cache).1
        outcome = (members.mapM (entryOf options)).map ofInserts ∧
        (∀ error, outcome = .error error ↔
          ∃ before member after, members = before ++ member :: after ∧
            (∀ earlier ∈ before, ∃ entry, entryOf options earlier = .ok entry) ∧
            entryOf options member = .error error) ∧
        ((∃ error, outcome = .error error) ↔
          ∃ member ∈ members, ∃ error, entryOf options member = .error error) := by
  refine ⟨fun inserts => ?_, fun _ _ => variableName?_eq_some_iff, ?_⟩
  · exact ⟨Table.nodup_keys_insertAll inserts, Table.keys_insertAll inserts,
      Table.get?_insertAll inserts, Table.size_insertAll inserts⟩
  · intro options cache members hsound outcome
    obtain ⟨hloaded, hstable⟩ := isStable_foldlM options ∅ members
    have houtcome : outcome = (members.mapM (entryOf options)).map ofInserts :=
      (hstable cache hsound).1.trans hloaded
    have herror (error : LoadError) :
        outcome = .error error ↔ members.mapM (entryOf options) = .error error := by
      rw [houtcome]
      cases members.mapM (entryOf options) <;> simp [Except.map]
    refine ⟨houtcome, fun error => (herror error).trans mapM_eq_error_iff, ?_⟩
    rw [← exists_mapM_eq_error_iff]
    exact exists_congr herror

/-- Both spellings of one name share the place of the first, and the curve of the second is kept.
Behind a key that names nothing no definition is looked at. -/
theorem ofJson_inserts_spellings :
    ((ofJson (.object [("variable.a", .object [("type", .string "linear")]),
          ("v.b", .object [("type", .string "linear")]),
          ("v.a", .object [("type", .string "bezier_chain")])])).run.run
        (.after .standard [.compile "query.t"])).1 =
      .ok ⟨[("a", ⟨.bezierChain, [], .zero, .one⟩), ("b", ⟨.linear, [], .zero, .one⟩)]⟩ ∧
    ((ofJson (.object [("v.a", .object [("type", .string "linear")]), ("variable.", .null),
          ("v.b", .null)])).run.run (.after .standard [.compile "query.t"])).1 =
      .error (.construction (.notVariableName "variable.")) := by
  have hsound : Sound .standard (.after .standard [.compile "query.t"]) := .after .standard _
  have hempty (shape : Curve.Shape) (hshape : shape ≠ .bezier) :
      Curve.ofNodes shape [] Expr.zero .one = .ok ⟨shape, [], .zero, .one⟩ := by
    have hsort : Timeline.ofEntries (Curve.Node.time (ε := Expr)) .nodeTimeNotFinite [] = .ok [] :=
      congrArg Except.ok List.mergeSort_nil
    rw [Curve.ofNodes, if_neg fun hcount => hshape hcount.1, hsort]
    rfl
  have hlinear : loaded .standard (Curve.ofJson (.object [("type", .string "linear")])) =
      .ok ⟨.linear, [], .zero, .one⟩ :=
    congrArg (Except.mapError .construction) (hempty .linear nofun)
  have hchain : loaded .standard (Curve.ofJson (.object [("type", .string "bezier_chain")])) =
      .ok ⟨.bezierChain, [], .zero, .one⟩ :=
    congrArg (Except.mapError .construction) (hempty .bezierChain nofun)
  have hlong : variableName? "variable.a" = some "a" := rfl
  have hother : variableName? "v.b" = some "b" := rfl
  have hshort : variableName? "v.a" = some "a" := rfl
  constructor
  · rw [(ofJson_inserts.2.2 .standard _ _ hsound).1]
    simp only [List.mapM_cons, List.mapM_nil, entryOf, hlong, hother, hshort, hlinear, hchain]
    rfl
  · rw [(ofJson_inserts.2.2 .standard _ _ hsound).1]
    simp only [List.mapM_cons, List.mapM_nil, entryOf, hshort, hlinear]
    rfl

end MotionScript.CurveTable
