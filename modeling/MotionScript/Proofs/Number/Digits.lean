import MotionScript.Proofs.Number.Exact
/-!
# Reading the digits of a number

The digits that a decimal is laid out with, with or without a point, have the value of the decimal.
Zeros that the layout adds before the digits do not count, and zeros that it adds behind them stand
for the power of ten that the decimal has.
-/

namespace MotionScript

theorem digitsValue_eq (digits : List Char) : digitsValue digits = Nat.ofDigitChars 10 digits 0 :=
  Nat.ofDigitChars_eq_foldl.symm

theorem digitsValue_toDigits (n : Nat) : digitsValue (Nat.toDigits 10 n) = n := by
  rw [digitsValue_eq, Nat.ofDigitChars_ten_toDigits]

theorem digitsValue_zeros_append (n : Nat) (digits : List Char) :
    digitsValue (List.replicate n '0' ++ digits) = digitsValue digits := by
  rw [digitsValue_eq, digitsValue_eq, Nat.ofDigitChars_append, Nat.ofDigitChars_replicate_zero,
    Nat.mul_zero]

theorem digitsValue_append_zeros (digits : List Char) (n : Nat) :
    digitsValue (digits ++ List.replicate n '0') = digitsValue digits * 10 ^ n := by
  rw [digitsValue_eq, digitsValue_eq, Nat.ofDigitChars_append, Nat.ofDigitChars_replicate_zero,
    Nat.mul_comm]

namespace Decimal

open Float.Model.UnpackedFloat

/-- A power of ten may be written out as zeros, unless the number is too large to be read. -/
theorem toSingle_mul_pow (significand power : Nat)
    (hfinite : (toSingle ⟨significand, power⟩).isFinite = true) :
    toSingle ⟨significand * 10 ^ power, 0⟩ = toSingle ⟨significand, power⟩ := by
  have hread : ofScientific .binary32 (significand * 10 ^ power) 0 =
      ofScientific .binary32 significand power := by
    by_cases hzero : significand = 0
    · rw [hzero, Nat.zero_mul]
      rfl
    · have hproduct : significand * 10 ^ power ≠ 0 :=
        Nat.ne_of_gt (Nat.mul_pos (Nat.pos_of_ne_zero hzero) (Nat.pow_pos (by decide)))
      have hlarge : ¬ (power : Int) > 2 ^ 8 := by
        intro hlarge
        have hinfinite : ofScientific .binary32 significand power = .infinity .positive := by
          rw [ofScientific, dif_neg hzero, if_pos hlarge]
        have hparts : (toSingle ⟨significand, power⟩).toModel.unpack = .infinity .positive :=
          (congrArg (fun parts => (Float32.Model.pack parts).unpack) hinfinite).trans rfl
        have hfinite : (toSingle ⟨significand, power⟩).toModel.unpack.isFinite = true := hfinite
        rw [hparts] at hfinite
        cases hfinite
      have hsmall : ¬ (power : Int) < -((2 ^ 8 : Int) + significand.log2) := by omega
      have hsmall' : ¬ (0 : Int) < -((2 ^ 8 : Int) + (significand * 10 ^ power).log2) := by omega
      have hbits : (significand * 10 ^ power) <<< 24 * 10 ^ 0 =
          significand <<< 24 * 10 ^ power := by
        rw [Nat.shiftLeft_eq, Nat.shiftLeft_eq, Nat.pow_zero, Nat.mul_one, Nat.mul_right_comm]
      rw [ofScientific, dif_neg hproduct, if_neg (by decide), if_neg hsmall', if_pos (by decide),
        ofScientific, dif_neg hzero, if_neg hlarge, if_neg hsmall, if_pos (Int.natCast_nonneg _)]
      change roundWithAccuracy .binary32 .positive ((significand * 10 ^ power) <<< 24 * 10 ^ 0)
          (-24 + 0) .exact =
        roundWithAccuracy .binary32 .positive (significand <<< 24 * 10 ^ power) (-24 + 0) .exact
      rw [hbits]
  exact congrArg (fun parts => Float32.ofModel (.pack parts)) hread

/-- Digits before a point and, if there is a point, digits behind it. -/
structure Numeral where
  whole : List Char
  fraction : Option (List Char)

namespace Numeral

def lexeme (numeral : Numeral) : List Char :=
  numeral.whole ++
    match numeral.fraction with
    | some fraction => '.' :: fraction
    | none => []

/-- At least one digit stands before the point, and there are only digits. -/
structure Plain (numeral : Numeral) : Prop where
  whole_ne_nil : numeral.whole ≠ []
  whole_digits : ∀ c ∈ numeral.whole, c.isDigit = true
  fraction_digits : ∀ c ∈ numeral.fraction.getD [], c.isDigit = true

def decimal (numeral : Numeral) : Decimal :=
  ofDigits numeral.whole (numeral.fraction.getD [])

theorem Plain.exists_digit {numeral : Numeral} (hplain : numeral.Plain) :
    ∃ c lexeme, numeral.lexeme = c :: lexeme ∧ c.isDigit = true := by
  obtain ⟨whole, fraction⟩ := numeral
  cases whole with
  | nil => exact absurd rfl hplain.whole_ne_nil
  | cons c whole => exact ⟨c, _, rfl, hplain.whole_digits c List.mem_cons_self⟩

end Numeral

theorem isDigit_of_mem_toString {n : Nat} {c : Char} (hmem : c ∈ (toString n).toList) :
    c.isDigit = true := by
  rw [Nat.toString_eq_repr, Nat.toList_repr] at hmem
  exact Nat.isDigit_of_mem_toDigits (by decide) (by decide) hmem

theorem digitsValue_toString (n : Nat) : digitsValue (toString n).toList = n := by
  rw [Nat.toString_eq_repr, Nat.toList_repr, digitsValue_toDigits]

theorem toString_ne_nil (n : Nat) : (toString n).toList ≠ [] := by
  rw [Nat.toString_eq_repr, Nat.toList_repr]
  exact Nat.toDigits_ne_nil

theorem isDigit_of_mem_zeros {n : Nat} {c : Char} (hmem : c ∈ List.replicate n '0') :
    c.isDigit = true := by
  rw [List.eq_of_mem_replicate hmem]
  rfl

/-! ### The three positions of the point -/

theorem positionalText_integer (significand power : Nat) :
    (positionalText false ⟨significand, power⟩).toList =
      (toString significand).toList ++ List.replicate power '0' := by
  have hinteger : (0 : Int) ≤ power := Int.natCast_nonneg power
  rw [positionalText, if_pos hinteger]
  change (toString significand ++ String.ofList (List.replicate power '0') ++ "").toList = _
  simp

theorem positionalText_inside {d : Decimal} {places : Nat} (hfraction : d.exponent < 0)
    (hpoint : d.point = places) (hpositive : 0 < places) :
    (positionalText false d).toList =
      (toString d.significand).toList.take places ++
        '.' :: (toString d.significand).toList.drop places := by
  have hinside : 0 < d.point := by omega
  rw [positionalText, if_neg (Int.not_le.2 hfraction), if_pos hinside, hpoint]
  simp

theorem positionalText_before {d : Decimal} {gap : Nat} (hfraction : d.exponent < 0)
    (hpoint : d.point = -gap) :
    (positionalText false d).toList =
      '0' :: '.' :: (List.replicate gap '0' ++ (toString d.significand).toList) := by
  have hbefore : ¬ 0 < d.point := by omega
  have hgap : (-d.point).toNat = gap := by omega
  rw [positionalText, if_neg (Int.not_le.2 hfraction), if_neg hbefore, hgap]
  change ("0." ++ String.ofList (List.replicate gap '0') ++ toString d.significand).toList = _
  simp

/-! ### Layouts are numerals -/

/-- A layout is a numeral that is read as the decimal is. -/
def IsLaidOut (d : Decimal) : Prop :=
  ∃ numeral : Numeral, numeral.Plain ∧ (d.positionalText false).toList = numeral.lexeme ∧
    numeral.decimal.toSingle = d.toSingle

/-- Without a fraction the digits are followed by zeros. -/
theorem isLaidOut_integer {significand power : Nat}
    (hfinite : (toSingle ⟨significand, power⟩).isFinite = true) :
    IsLaidOut ⟨significand, power⟩ := by
  refine ⟨⟨(toString significand).toList ++ List.replicate power '0', none⟩, ⟨?_, ?_, nofun⟩,
    ?_, ?_⟩
  · exact List.append_ne_nil_of_left_ne_nil (toString_ne_nil significand) _
  · intro c hmem
    exact (List.mem_append.1 hmem).elim isDigit_of_mem_toString isDigit_of_mem_zeros
  · rw [positionalText_integer, Numeral.lexeme]
    exact (List.append_nil _).symm
  · rw [← toSingle_mul_pow significand power hfinite, Numeral.decimal, ofDigits]
    simp only [Option.getD_none, List.append_nil, digitsValue_append_zeros, digitsValue_toString]
    rfl

/-- A point inside the digits parts them into a whole and a fraction. -/
theorem isLaidOut_inside {d : Decimal} {places : Nat} (hfraction : d.exponent < 0)
    (hpoint : d.point = places) (hpositive : 0 < places) : IsLaidOut d := by
  have hlength := List.length_pos_iff.2 (toString_ne_nil d.significand)
  have hplaces : ((toString d.significand).toList.length : Int) + d.exponent = places :=
    String.length_toList ▸ hpoint
  refine ⟨⟨(toString d.significand).toList.take places,
    some ((toString d.significand).toList.drop places)⟩, ⟨?_, ?_, ?_⟩, ?_, ?_⟩
  · intro hnil
    have hempty := congrArg List.length hnil
    rw [List.length_take, List.length_nil] at hempty
    omega
  · exact fun c hmem => isDigit_of_mem_toString (List.mem_of_mem_take hmem)
  · exact fun c hmem => isDigit_of_mem_toString (List.mem_of_mem_drop hmem)
  · exact positionalText_inside hfraction hpoint hpositive
  · apply congrArg toSingle
    rw [Numeral.decimal, ofDigits]
    simp only [Option.getD_some, List.take_append_drop, digitsValue_toString, List.length_drop]
    change Decimal.mk d.significand _ = Decimal.mk d.significand d.exponent
    exact congrArg (Decimal.mk d.significand) (by omega)

/-- With the point before all digits, zeros stand between the two. -/
theorem isLaidOut_before {d : Decimal} {gap : Nat} (hfraction : d.exponent < 0)
    (hpoint : d.point = -gap) : IsLaidOut d := by
  have hgap : ((toString d.significand).toList.length : Int) + d.exponent = -gap :=
    String.length_toList ▸ hpoint
  refine ⟨⟨['0'], some (List.replicate gap '0' ++ (toString d.significand).toList)⟩,
    ⟨List.cons_ne_nil _ _, ?_, ?_⟩, positionalText_before hfraction hpoint, ?_⟩
  · intro c hmem
    rw [List.mem_singleton.1 hmem]
    rfl
  · intro c hmem
    exact (List.mem_append.1 hmem).elim isDigit_of_mem_zeros isDigit_of_mem_toString
  · have hzeros : ['0'] ++ (List.replicate gap '0' ++ (toString d.significand).toList) =
        List.replicate (gap + 1) '0' ++ (toString d.significand).toList := rfl
    apply congrArg toSingle
    rw [Numeral.decimal, ofDigits]
    simp only [Option.getD_some, hzeros, digitsValue_zeros_append, digitsValue_toString,
      List.length_append, List.length_replicate]
    change Decimal.mk d.significand _ = Decimal.mk d.significand d.exponent
    exact congrArg (Decimal.mk d.significand) (by omega)

/-- A decimal that is read as a finite number is laid out as a numeral that is read as the same
number. -/
theorem isLaidOut (d : Decimal) (hfinite : d.toSingle.isFinite = true) : IsLaidOut d := by
  obtain ⟨significand, exponent⟩ := d
  by_cases hinteger : 0 ≤ exponent
  · obtain ⟨power, rfl⟩ := Int.eq_ofNat_of_zero_le hinteger
    exact isLaidOut_integer hfinite
  · have hfraction : exponent < 0 := Int.not_le.1 hinteger
    by_cases hinside : 0 < (⟨significand, exponent⟩ : Decimal).point
    · obtain ⟨places, hplaces⟩ := Int.eq_ofNat_of_zero_le (Int.le_of_lt hinside)
      exact isLaidOut_inside hfraction hplaces (by omega)
    · obtain ⟨gap, hgap⟩ : ∃ gap : Nat, (⟨significand, exponent⟩ : Decimal).point = -gap :=
        ⟨(-(⟨significand, exponent⟩ : Decimal).point).toNat, by omega⟩
      exact isLaidOut_before hfraction hgap

end Decimal

/-- The plain text of a number without a sign is a numeral that is read as the number. -/
theorem Single.plainText_numeral {x : Float32} (hfinite : x.isFinite = true)
    (hsign : Single.isNegative x = false) :
    ∃ numeral : Decimal.Numeral, numeral.Plain ∧ (Single.plainText x).toList = numeral.lexeme ∧
      numeral.decimal.toSingle = x := by
  have hshortest := Single.toSingle_shortest .up hfinite hsign
  have hwords := (Single.isFinite_iff x).1 hfinite
  obtain ⟨numeral, hdigits, htext, hvalue⟩ :=
    Decimal.isLaidOut (Decimal.shortest .up x) (by rw [hshortest]; exact hfinite)
  refine ⟨numeral, hdigits, ?_, hvalue.trans hshortest⟩
  have hplain : Single.plainText x =
      "" ++ (Decimal.shortest .up x).positionalText false := by
    rw [Single.plainText, Single.text, if_neg (by rw [hwords.1]; exact Bool.false_ne_true)]
    simp only [hsign, hwords.2, Bool.false_eq_true, if_false]
    rw [Decimal.text, if_pos (by simp [Decimal.Layout.plain])]
    rfl
  rw [hplain, String.empty_append, htext]

end MotionScript
