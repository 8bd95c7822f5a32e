import MotionScript.Ease.Formula
import MotionScript.Proofs.Blend.Unit
/-!
# Bends of powers

In exact arithmetic the easings of the powers stay in the unit interval and never turn back.  The
bend of the end is the bend of the start seen from the other side, and the bend of both ends is made
of two halves of it, which meet in the middle because the scale belongs to the power.
-/

namespace MotionScript

/-- The real numbers have the functions that bends are made of. -/
noncomputable instance : Elementary ℝ where
  pi := Real.pi
  sqrt := Real.sqrt
  sin := Real.sin
  cos := Real.cos
  pow := fun x y => x ^ y

namespace Ease

variable {α : Type} [Field α]

/-! ### Powers -/

/-- Each step halves the exponent and squares the base, and a factor is put aside where the exponent
is odd. -/
theorem powerTimes_eq (n : ℕ) (x result : α) : powerTimes n x result = result * x ^ n := by
  fun_induction powerTimes n x result with
  | case1 x result => rw [pow_zero, mul_one]
  | case2 n x result ih =>
      rw [dite_eq_ite] at ih
      rw [ih, ← pow_two, ← pow_mul]
      split
      next heven =>
        have hodd : 2 * ((n + 1) / 2) + 1 = n + 1 := by omega
        rw [mul_assoc, ← pow_succ', hodd]
      next hodd =>
        have heven : 2 * ((n + 1) / 2) = n + 1 := by omega
        rw [heven]

theorem power_eq_pow (n : ℕ) (x : α) : power n x = x ^ n := by
  rw [power, powerTimes_eq, Nat.cast_one, one_mul]

theorem Family.degree?_ne_zero {family : Family} {n : ℕ} (hdegree : family.degree? = some n) :
    n ≠ 0 := by
  rintro rfl
  cases family <;> cases hdegree

/-! ### Bends on the unit interval -/

variable [LinearOrder α] [IsStrictOrderedRing α] {n : ℕ} {t : α}

omit [IsStrictOrderedRing α] in
theorem powerBend_easeIn (n : ℕ) (t : α) : powerBend n .easeIn t = t ^ n :=
  power_eq_pow n t

omit [IsStrictOrderedRing α] in
theorem powerBend_easeOut (n : ℕ) (t : α) :
    powerBend n .easeOut t = 1 - powerBend n .easeIn (1 - t) := by
  simp only [powerBend, Nat.cast_one]

/-- The scale that makes half a power reach the middle. -/
theorem scale_mul (hn : n ≠ 0) (t : α) : 2 ^ (n - 1) * t ^ n = (2 * t) ^ n / 2 := by
  obtain ⟨n, rfl⟩ := Nat.exists_eq_add_one_of_ne_zero hn
  rw [Nat.add_sub_cancel, mul_pow, pow_succ' 2 n]
  ring

theorem powerBend_easeInOut_of_ge (hn : n ≠ 0) (ht : 1 / 2 ≤ t) :
    powerBend n .easeInOut t = 1 - powerBend n .easeIn (2 * (1 - t)) / 2 := by
  simp only [powerBend, power_eq_pow, Nat.cast_one, Nat.cast_ofNat, if_neg ht.not_gt, scale_mul hn]

/-- The first half counts in the middle as well, since both halves have the same value there. -/
theorem powerBend_easeInOut_of_le (hn : n ≠ 0) (ht : t ≤ 1 / 2) :
    powerBend n .easeInOut t = powerBend n .easeIn (2 * t) / 2 := by
  obtain hless | rfl := ht.lt_or_eq
  · simp only [powerBend, power_eq_pow, Nat.cast_one, Nat.cast_ofNat, if_pos hless, scale_mul hn]
  · rw [powerBend_easeInOut_of_ge hn le_rfl, powerBend_easeIn, powerBend_easeIn]
    norm_num

/-- The two halves are mirror images. -/
theorem powerBend_easeInOut_one_sub (hn : n ≠ 0) (t : α) :
    powerBend n .easeInOut t = 1 - powerBend n .easeInOut (1 - t) := by
  obtain hfirst | hsecond := le_total t (1 / 2)
  · rw [powerBend_easeInOut_of_le hn hfirst, powerBend_easeInOut_of_ge hn (by linarith),
      sub_sub_cancel, sub_sub_cancel]
  · rw [powerBend_easeInOut_of_ge hn hsecond, powerBend_easeInOut_of_le hn (by linarith)]

theorem powerBend_easeIn_mem (n : ℕ) (ht : t ∈ Set.Icc (0 : α) 1) :
    powerBend n .easeIn t ∈ Set.Icc (0 : α) 1 := by
  rw [powerBend_easeIn]
  exact ⟨pow_nonneg ht.1 n, pow_le_one₀ ht.1 ht.2⟩

/-- A power bend keeps the unit interval. -/
theorem powerBend_mem (hn : n ≠ 0) (side : Side) (ht : t ∈ Set.Icc (0 : α) 1) :
    powerBend n side t ∈ Set.Icc (0 : α) 1 := by
  cases side with
  | easeIn => exact powerBend_easeIn_mem n ht
  | easeOut =>
      rw [powerBend_easeOut]
      exact Set.Icc.one_sub_mem (powerBend_easeIn_mem n (Set.Icc.one_sub_mem ht))
  | easeInOut =>
      obtain hfirst | hsecond := le_total t (1 / 2)
      · have htwice : 2 * t ∈ Set.Icc (0 : α) 1 := ⟨by linarith [ht.1], by linarith⟩
        obtain ⟨hleast, hmost⟩ := powerBend_easeIn_mem n htwice
        rw [powerBend_easeInOut_of_le hn hfirst]
        exact ⟨by linarith, by linarith⟩
      · have htwice : 2 * (1 - t) ∈ Set.Icc (0 : α) 1 := ⟨by linarith [ht.2], by linarith⟩
        obtain ⟨hleast, hmost⟩ := powerBend_easeIn_mem n htwice
        rw [powerBend_easeInOut_of_ge hn hsecond]
        exact ⟨by linarith, by linarith⟩

theorem powerBend_zero (hn : n ≠ 0) (side : Side) : powerBend n side (0 : α) = 0 := by
  cases side with
  | easeIn => rw [powerBend_easeIn, zero_pow hn]
  | easeOut => rw [powerBend_easeOut, powerBend_easeIn, sub_zero, one_pow, sub_self]
  | easeInOut =>
      rw [powerBend_easeInOut_of_le hn one_half_pos.le, mul_zero, powerBend_easeIn, zero_pow hn,
        zero_div]

theorem powerBend_one (hn : n ≠ 0) (side : Side) : powerBend n side (1 : α) = 1 := by
  cases side with
  | easeIn => rw [powerBend_easeIn, one_pow]
  | easeOut => rw [powerBend_easeOut, sub_self, powerBend_zero hn, sub_zero]
  | easeInOut => rw [powerBend_easeInOut_one_sub hn, sub_self, powerBend_zero hn, sub_zero]

/-! ### Order -/

theorem powerBend_easeIn_le {s : α} (n : ℕ) (hs : 0 ≤ s) (hst : s ≤ t) :
    powerBend n .easeIn s ≤ powerBend n .easeIn t := by
  rw [powerBend_easeIn, powerBend_easeIn]
  exact pow_le_pow_left₀ hs hst n

/-- Each half is monotone, and they meet in the middle. -/
theorem monotoneOn_powerBend_easeInOut (hn : n ≠ 0) :
    MonotoneOn (powerBend n .easeInOut) (Set.Icc (0 : α) 1) := by
  have hfirst : MonotoneOn (powerBend n .easeInOut) (Set.Icc (0 : α) (1 / 2)) := by
    intro s hs t ht hst
    rw [powerBend_easeInOut_of_le hn hs.2, powerBend_easeInOut_of_le hn ht.2]
    have hle := powerBend_easeIn_le n (mul_nonneg zero_le_two hs.1)
      (mul_le_mul_of_nonneg_left hst zero_le_two)
    linarith
  have hsecond : MonotoneOn (powerBend n .easeInOut) (Set.Icc (1 / 2 : α) 1) := by
    intro s hs t ht hst
    rw [powerBend_easeInOut_of_ge hn hs.1, powerBend_easeInOut_of_ge hn ht.1]
    have hle := powerBend_easeIn_le n (mul_nonneg zero_le_two (sub_nonneg.2 ht.2))
      (mul_le_mul_of_nonneg_left (sub_le_sub_left hst 1) zero_le_two)
    linarith
  have hunion : Set.Icc (0 : α) (1 / 2) ∪ Set.Icc (1 / 2) 1 = Set.Icc 0 1 :=
    Set.Icc_union_Icc_eq_Icc one_half_pos.le one_half_lt_one.le
  rw [← hunion]
  exact hfirst.union_right hsecond (isGreatest_Icc one_half_pos.le) (isLeast_Icc one_half_lt_one.le)

/-- A power bend rises on the unit interval, whichever side it bends on. -/
theorem monotoneOn_powerBend (hn : n ≠ 0) (side : Side) :
    MonotoneOn (powerBend n side) (Set.Icc (0 : α) 1) := by
  cases side with
  | easeIn => exact fun s hs t _ hst => powerBend_easeIn_le n hs.1 hst
  | easeOut =>
      intro s hs t ht hst
      rw [powerBend_easeOut, powerBend_easeOut]
      exact sub_le_sub_left
        (powerBend_easeIn_le n (sub_nonneg.2 ht.2) (sub_le_sub_left hst 1)) 1
  | easeInOut => exact monotoneOn_powerBend_easeInOut hn

/-! ### Easings at any progress -/

variable [Elementary α] {family : Family}

/-- The other families are pinned at both ends by a case of their own. -/
theorem apply_zero (easing : Ease) : easing.apply (0 : α) = 0 := by
  match easing with
  | .linear => exact unitClamp_of_nonpos le_rfl
  | .bend family side =>
      rw [apply, unitClamp_of_nonpos le_rfl, bendAt]
      split
      next n hdegree => exact powerBend_zero (Family.degree?_ne_zero hdegree) side
      next => rw [Nat.cast_zero, if_pos le_rfl]

/-- Every easing ends at one. -/
theorem apply_one (easing : Ease) : easing.apply (1 : α) = 1 := by
  match easing with
  | .linear => exact unitClamp_of_one_le le_rfl
  | .bend family side =>
      rw [apply, unitClamp_of_one_le le_rfl, bendAt]
      split
      next n hdegree => exact powerBend_one (Family.degree?_ne_zero hdegree) side
      next => rw [Nat.cast_zero, Nat.cast_one, if_neg zero_lt_one.not_ge, if_pos le_rfl]

omit [IsStrictOrderedRing α] in
theorem apply_of_degree? (hdegree : family.degree? = some n) (side : Side) (t : α) :
    apply (.bend family side) t = powerBend n side (unitClamp t) := by
  simp only [apply, bendAt, hdegree]

/-- What is expected of the three bends of a family at any progress, also outside of the unit
interval. -/
structure IsRegular (bend : Side → α → α) : Prop where
  mem_Icc : ∀ side t, bend side t ∈ Set.Icc (0 : α) 1
  monotone : ∀ side, Monotone (bend side)
  easeOut_eq : ∀ t, bend .easeOut t = 1 - bend .easeIn (1 - t)
  easeInOut_eq : ∀ t < 1 / 2, bend .easeInOut t = bend .easeIn (2 * t) / 2
  easeInOut_symmetric : ∀ t, bend .easeInOut t = 1 - bend .easeInOut (1 - t)

theorem power_bends_regular (hfamily : family ∈ [Family.quad, .cubic, .quart, .quint]) :
    IsRegular fun side (t : α) => apply (.bend family side) t := by
  obtain ⟨n, hdegree⟩ : ∃ n, family.degree? = some n := by
    simp only [List.mem_cons, List.not_mem_nil, or_false] at hfamily
    obtain rfl | rfl | rfl | rfl := hfamily <;> exact ⟨_, rfl⟩
  have hn := Family.degree?_ne_zero hdegree
  simp only [apply_of_degree? hdegree]
  exact {
    mem_Icc := fun side t => powerBend_mem hn side (unitClamp_mem t)
    monotone := fun side s t hst =>
      monotoneOn_powerBend hn side (unitClamp_mem s) (unitClamp_mem t) (monotone_unitClamp hst)
    easeOut_eq := fun t => by rw [unitClamp_one_sub, powerBend_easeOut]
    easeInOut_eq := fun t ht => by
      rw [unitClamp_two_mul ht.le, powerBend_easeInOut_of_le hn (unitClamp_le_half ht.le)]
    easeInOut_symmetric := fun t => by
      rw [unitClamp_one_sub, ← powerBend_easeInOut_one_sub hn] }

/-- A fifth power before and behind the middle, and far outside of the interval. -/
theorem power_bends_regular_quint :
    Family.quint ∈ [Family.quad, .cubic, .quart, .quint] ∧
      apply (.bend .quint .easeInOut) (1 / 4 : ℝ) = 1 / 64 ∧
      apply (.bend .quint .easeInOut) (3 / 4 : ℝ) = 63 / 64 ∧
      apply (.bend .quint .easeOut) (-5 : ℝ) = 0 := by
  have hfamily : Family.quint ∈ [Family.quad, .cubic, .quart, .quint] := by decide
  have hregular : IsRegular fun side (t : ℝ) => apply (.bend .quint side) t :=
    power_bends_regular hfamily
  have hstart (t : ℝ) : apply (.bend .quint .easeIn) t = unitClamp t ^ 5 := by
    rw [apply_of_degree? rfl, powerBend_easeIn]
  have hquarter : apply (.bend .quint .easeInOut) (1 / 4 : ℝ) = 1 / 64 := by
    rw [hregular.easeInOut_eq _ (by norm_num), hstart, unitClamp_of_mem (by norm_num)]
    norm_num
  refine ⟨hfamily, hquarter, ?_, ?_⟩
  · have hmirror : (1 : ℝ) - 3 / 4 = 1 / 4 := by norm_num
    rw [hregular.easeInOut_symmetric, hmirror, hquarter]
    norm_num
  · rw [hregular.easeOut_eq, hstart, unitClamp_of_one_le (by norm_num), one_pow, sub_self]

end Ease

end MotionScript
