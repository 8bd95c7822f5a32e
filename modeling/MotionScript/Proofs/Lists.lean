/-!
# Lists and programs that may fail

A test that an element does not pass unless all elements before it do cuts a list in two.  A program
that may turn an element down is run along a list up to the first one that it turns down.
-/

namespace MotionScript

variable {ε α β : Type} {values : List α}

/-- If whatever comes before an element that passes a test passes it too, the elements in front of
the first that fails are those that pass. -/
theorem lt_length_takeWhile_iff {passes : α → Bool}
    (hdown : values.Pairwise fun left right => passes right = true → passes left = true)
    (i : Nat) :
    i < (values.takeWhile passes).length ↔
      ∃ value, values[i]? = some value ∧ passes value = true := by
  induction values generalizing i with
  | nil => simp
  | cons first values ih =>
      obtain ⟨hfirst, hrest⟩ := List.pairwise_cons.1 hdown
      rw [List.takeWhile_cons]
      split
      next hpasses =>
        cases i with
        | zero => simp [hpasses]
        | succ i => simpa using ih hrest i
      next hfails =>
        refine iff_of_false (Nat.not_lt_zero i) ?_
        rintro ⟨value, hvalue, hpasses⟩
        cases i with
        | zero =>
            cases hvalue
            exact hfails hpasses
        | succ i => exact hfails (hfirst value (List.mem_of_getElem? hvalue) hpasses)

/-- Where those that pass a test come first, they can be told apart from the others. -/
theorem filter_append_filter_not {passes : α → Bool}
    (hdown : values.Pairwise fun left right => passes right = true → passes left = true) :
    values.filter passes ++ values.filter (fun value => !passes value) = values := by
  induction values with
  | nil => rfl
  | cons first values ih =>
      obtain ⟨hfirst, hrest⟩ := List.pairwise_cons.1 hdown
      cases hpasses : passes first with
      | true =>
          rw [List.filter_cons_of_pos hpasses, List.filter_cons_of_neg (by simp [hpasses]),
            List.cons_append, ih hrest]
      | false =>
          have hnone : ∀ value ∈ first :: values, ¬ passes value = true := by
            refine List.forall_mem_cons.2 ⟨by simp [hpasses], fun value hmem hvalue => ?_⟩
            rw [hfirst value hmem hvalue] at hpasses
            cases hpasses
          rw [List.filter_eq_nil_iff.2 hnone, List.filter_eq_self.2 (by simpa using hnone)]
          rfl

theorem eq_ok_of_toOption {result : Except ε α} {value : α}
    (hvalue : result.toOption = some value) : result = .ok value := by
  cases result with
  | error error => cases hvalue
  | ok found => exact congrArg _ (Option.some.inj hvalue)

/-- Where some value is turned down, the first one that is decides. -/
theorem mapM_eq_error_iff {f : α → Except ε β} {error : ε} :
    values.mapM f = .error error ↔ ∃ before value after, values = before ++ value :: after ∧
      (∀ earlier ∈ before, ∃ result, f earlier = .ok result) ∧ f value = .error error := by
  induction values with
  | nil => simp [pure, Except.pure]
  | cons first values ih =>
      rw [List.mapM_cons]
      cases hfirst : f first with
      | error fault =>
          constructor
          · intro hrun
            cases hrun
            exact ⟨[], first, values, rfl, nofun, hfirst⟩
          · rintro ⟨_ | ⟨head, before⟩, value, after, hsplit, hbefore, hvalue⟩
            · cases hsplit
              obtain rfl := Except.error.inj (hfirst.symm.trans hvalue)
              rfl
            · cases hsplit
              obtain ⟨result, hresult⟩ := hbefore first List.mem_cons_self
              rw [hfirst] at hresult
              cases hresult
      | ok result =>
          have hrest : (Except.ok result >>= fun b => values.mapM f >>= fun bs => pure (b :: bs)) =
              .error error ↔ values.mapM f = .error error := by
            cases values.mapM f <;> simp [bind, Except.bind, pure, Except.pure]
          rw [hrest, ih]
          constructor
          · rintro ⟨before, value, after, rfl, hbefore, hvalue⟩
            exact ⟨first :: before, value, after, rfl,
              List.forall_mem_cons.2 ⟨⟨result, hfirst⟩, hbefore⟩, hvalue⟩
          · rintro ⟨_ | ⟨head, before⟩, value, after, hsplit, hbefore, hvalue⟩
            · cases hsplit
              rw [hfirst] at hvalue
              cases hvalue
            · cases hsplit
              exact ⟨before, value, after, rfl, (List.forall_mem_cons.1 hbefore).2, hvalue⟩

/-- If any value is turned down, one of them is the first. -/
theorem exists_mapM_eq_error_iff {f : α → Except ε β} :
    (∃ error, values.mapM f = .error error) ↔
      ∃ value ∈ values, ∃ error, f value = .error error := by
  induction values with
  | nil => simp [pure, Except.pure]
  | cons first values ih =>
      simp only [List.mapM_cons, List.mem_cons, exists_eq_or_imp, ← ih]
      cases f first with
      | error fault => simp [bind, Except.bind]
      | ok result => cases values.mapM f <;> simp [bind, Except.bind, pure, Except.pure]

end MotionScript
