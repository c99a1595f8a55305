import LinearInterchange.Proofs.NumeralReading

/-!
# Signs and printed coefficients

Every coefficient but those with the least word as numerator has an opposite.  Every coefficient is
printed as a numeral of itself, and that is read back unless it is the least integer: its sign is
taken off before its digits are read.
-/

namespace LinearInterchange

open Text Parser

/-! ## Changing signs -/

lemma Coeff.val_neg {c : Coeff} (h : FitsCoeff (-c.val)) : c.neg.val = -c.val := by
  rw [Coeff.neg, Coeff.ofRat?, dif_pos h, Option.getD_some]

/-- A coefficient whose opposite is out of range stays as it is. -/
lemma Coeff.neg_of_not_fits {c : Coeff} (h : ¬FitsCoeff (-c.val)) : c.neg = c := by
  rw [Coeff.neg, Coeff.ofRat?, dif_neg h, Option.getD_none]

/-- Changing the sign twice changes nothing. -/
lemma Coeff.neg_neg (c : Coeff) : c.neg.neg = c := by
  by_cases h : FitsCoeff (-c.val)
  · have hval := Coeff.val_neg h
    have hback : -c.neg.val = c.val := by
      rw [hval]
      exact Rat.neg_neg _
    apply Coeff.ext
    rw [Coeff.val_neg (hback ▸ c.fits), hback]
  · rw [Coeff.neg_of_not_fits h, Coeff.neg_of_not_fits h]

/-- The opposite of a coefficient is in range unless its numerator is the least word. -/
lemma Coeff.fits_neg {c : Coeff} (h : c.val.num ≠ -9223372036854775808) : FitsCoeff (-c.val) := by
  obtain ⟨hnum, hden⟩ := c.fits
  rw [FitsCoeff, Rat.neg_num, Rat.neg_den]
  refine ⟨?_, hden⟩
  unfold FitsWord at hnum ⊢
  omega

/-- A decimal has fewer digits than the least word, and zeros behind them do not lead to it. -/
lemma Decimal.num_ne_of_toCoeff {d : Decimal} {c : Coeff} (h : d.toCoeff = .ok c) :
    c.val.num ≠ -9223372036854775808 := by
  obtain ⟨⟨hdigits, -, -⟩, hval⟩ := Decimal.toCoeff_eq_ok_iff.1 h
  have habs : d.signed.natAbs = d.digits := by
    unfold Decimal.signed
    split <;> omega
  intro hleast
  rw [hval, Decimal.wordValue] at hleast
  -- with zeros behind them the digits give a multiple of ten; with places behind the point the
  -- numerator divides the digits
  obtain ⟨k, hk | hk⟩ := d.wordScale.toInt.eq_nat_or_neg
  · have hvalue : ((d.signed * 10 ^ k : ℤ) : ℚ) = d.signed * 10 ^ d.wordScale.toInt := by
      rw [hk, zpow_natCast]
      push_cast
      rfl
    rw [← hvalue, Rat.num_intCast] at hleast
    cases k with
    | zero => omega
    | succ k =>
      rw [pow_succ, ← mul_assoc] at hleast
      omega
  · have hvalue : Rat.divInt d.signed (10 ^ k) = d.signed * 10 ^ d.wordScale.toInt := by
      rw [hk, zpow_neg, zpow_natCast, Rat.divInt_eq_div]
      push_cast
      rfl
    have hdvd : (Rat.divInt d.signed (10 ^ k)).num ∣ d.signed :=
      Rat.num_dvd _ (pow_ne_zero _ (by decide))
    rw [hvalue, hleast] at hdvd
    have hzero : d.signed = 0 := Int.eq_zero_of_dvd_of_natAbs_lt_natAbs hdvd (by omega)
    rw [hzero, Int.cast_zero, zero_mul] at hleast
    cases hleast

/-- The opposite of a coefficient that is read from a token without a slash is in range. -/
lemma Coeff.fits_neg_of_read {cs : List Char} {c : Coeff} (hslash : '/' ∉ cs)
    (h : Coeff.read cs = .ok c) : FitsCoeff (-c.val) := by
  have hnone : splitFirst (· == '/') cs = none := by
    apply splitFirst_eq_none
    rintro d hd
    rw [beq_eq_false_iff_ne]
    rintro rfl
    exact hslash hd
  rw [Coeff.read, hnone] at h
  have hdecimal : Coeff.readDecimal cs = .ok c := h
  obtain ⟨d, -, -, hd⟩ := Coeff.readDecimal_eq_ok_iff.1 hdecimal
  exact Coeff.fits_neg (Decimal.num_ne_of_toCoeff (Decimal.toCoeff_eq_ok_iff.2 hd))

/-! ## Coefficients as they are printed -/

/-- The text of an integer is an integer. -/
lemma integerText_toString (z : ℤ) : IntegerText (toString z).toList z := by
  have hdigits : IsDigits (Nat.toDigits 10 z.natAbs) :=
    ⟨Nat.toDigits_ne_nil, fun _ => isDigit_of_mem⟩
  have hvalue := Nat.ofDigitChars_ten_toDigits (n := z.natAbs)
  rw [toList_toString_int, signOf]
  split
  next hz =>
    have h := IntegerText.intro .minus hdigits
    rw [hvalue] at h
    convert h using 1
    omega
  next hz =>
    have h := IntegerText.intro .none hdigits
    rw [hvalue] at h
    convert h using 1
    omega

/-- **A coefficient is printed as a numeral of itself.** -/
lemma Coeff.numeral_toText (c : Coeff) : Numeral c.toText.toList c.val := by
  by_cases hden : c.val.den = 1
  · have hval : (c.val.num : ℚ) = c.val := (Rat.den_eq_one_iff _).1 hden
    rw [Coeff.toText_of_den_eq_one hden]
    exact .decimal (hval ▸ (integerText_toString c.val.num).decimalText)
  · have hne : (c.val.den : ℤ) ≠ 0 := Int.natCast_ne_zero.2 c.val.den_ne_zero
    have hfraction := Numeral.fraction (integerText_toString c.val.num)
      (integerText_toString c.val.den) hne
    rw [Int.cast_natCast, Rat.num_div_den, toList_toString_natCast] at hfraction
    rwa [Coeff.toText_of_den_ne_one hden]

/-- The magnitude of the least integer is out of range. -/
lemma Coeff.read_toText_least {c : Coeff} (h : c.val = -9223372036854775808) :
    Coeff.read c.toText.toList = .error .outOfRange := by
  have hden : c.val.den = 1 := by rw [h]; rfl
  have hnum : c.val.num = -9223372036854775808 := by rw [h]; rfl
  have hslash : ∀ d ∈ (toString c.val.num).toList, (d == '/') = false :=
    (integerText_toString _).decimalText.no_slash
  unfold Coeff.read
  rw [Coeff.toText_of_den_eq_one hden, splitFirst_eq_none hslash]
  show Coeff.readDecimal _ = _
  rw [Coeff.readDecimal_toString]
  refine if_pos ?_
  rw [Decimal.countable, Decimal.digits, List.append_nil, valueOf_toDigits, hnum]
  decide

/-- **A coefficient that is printed is taken whole and read back, unless it is the least integer.**
Its text is a numeral of it, and the token that is taken of it is all of it, at the end of a line
and before a blank.  The least integer is refused, since its sign is taken off before its magnitude
is read, although it is the numerator of fractions that are read. -/
theorem Coeff.read_printed (c : Coeff) :
    Numeral c.toText.toList c.val ∧
      fractionToken c.toText.toList = some (c.toText.toList, []) ∧
      (∀ rest, fractionToken (c.toText.toList ++ ' ' :: rest) =
        some (c.toText.toList, ' ' :: rest)) ∧
      Coeff.read c.toText.toList =
        if c.val = -9223372036854775808 then .error .outOfRange else .ok c := by
  refine ⟨c.numeral_toText, ?_, fun rest => fractionToken_append c (stops_cons (by decide)), ?_⟩
  · have hwhole := fractionToken_append c (stops_nil _)
    rwa [List.append_nil] at hwhole
  · split
    next hleast => exact Coeff.read_toText_least hleast
    next hleast => exact Coeff.read_toText hleast

/-- The least integer is a coefficient that is not read back. -/
theorem Coeff.read_least_ne : ∃ c : Coeff, Numeral c.toText.toList c.val ∧
    ∀ c', Coeff.read c.toText.toList ≠ .ok c' := by
  have hleast : (Coeff.ofWord Int64.minValue).val = -9223372036854775808 := rfl
  refine ⟨Coeff.ofWord Int64.minValue, Coeff.numeral_toText _, fun c' h => ?_⟩
  rw [Coeff.read_toText_least hleast] at h
  cases h

end LinearInterchange
