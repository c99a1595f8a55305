import LinearInterchange.Proofs.Numerals
import LinearInterchange.Proofs.Words

/-!
# Numerals that are read

A token that is read is a numeral, and the coefficient is the number that it denotes: nothing is
rounded, and no digit is lost.  The one exception are fractions of more than two billion digits with
an exponent that makes up for them, in builds that do not check their arithmetic.

Each function of the reader has its success stated as one biconditional (`readFraction_eq_ok_iff`,
`readDecimal_eq_ok_iff`).  What they compute differs from what the token denotes only where the
arithmetic overflows; `Coeff.computed` says by how much.
-/

namespace LinearInterchange

open Text Parser

/-! ## Tokens that are read -/

/-- The integer is in the range. -/
def Text.IntegerRange.Holds (range : IntegerRange) (z : ℤ) : Prop :=
  range.least ≤ z ∧ z ≤ range.greatest

instance (range : IntegerRange) (z : ℤ) : Decidable (range.Holds z) :=
  inferInstanceAs (Decidable (_ ∧ _))

/-- An integer of a range is read from its text, whatever the number of its digits. -/
lemma IntegerText.readInteger_eq_ok {range : IntegerRange} {cs : List Char} {z : ℤ}
    (h : IntegerText cs z) (hminus : range.hasMinus = true) (hzero : range.Holds 0)
    (hz : range.Holds z) : readInteger range cs = .ok z := by
  obtain ⟨hsign, hds⟩ := h
  rename_i s ds u
  rw [← hsign.withSign_eq] at hz ⊢
  have happend := appendDigits_eq_ok hds.digits hzero.1 hzero.2 hz.1 hz.2
  have hstart : withSign (decide (u < 0)) 0 = 0 := by cases decide (u < 0) <;> rfl
  rw [hstart] at happend
  cases hsign with
  | none =>
    obtain ⟨c, cs, rfl⟩ := List.exists_cons_of_ne_nil hds.ne_nil
    have hnoplus : c ≠ '+' := ne_of_isDigit (hds.digits c List.mem_cons_self) (by decide)
    have hnominus : c ≠ '-' := ne_of_isDigit (hds.digits c List.mem_cons_self) (by decide)
    rw [List.nil_append]
    unfold readInteger
    split <;> simp_all
  | plus =>
    obtain ⟨c, cs, rfl⟩ := List.exists_cons_of_ne_nil hds.ne_nil
    exact happend
  | minus =>
    have hcond : (range.hasMinus && !ds.isEmpty) = true := by
      rw [hminus, Bool.true_and, Bool.not_eq_true', List.isEmpty_eq_false_iff]
      exact hds.ne_nil
    exact (if_pos hcond).trans happend

/-- **A text is read as a word exactly if it denotes the word.** -/
lemma readWord_eq_ok_iff {cs : List Char} {w : Int64} :
    readWord cs = .ok w ↔ IntegerText cs w.toInt := by
  constructor
  · exact integerText_of_readWord
  · intro h
    have hread : readInteger .word cs = .ok w.toInt :=
      h.readInteger_eq_ok rfl ⟨by decide, by decide⟩ (fitsWord_toInt w)
    rw [readWord, hread]
    exact congrArg Except.ok (Int64.ofInt_toInt w)

/-- A text that denotes an integer in the range of words is read as a word. -/
lemma IntegerText.exists_word {cs : List Char} {z : ℤ} (h : IntegerText cs z) (hz : FitsWord z) :
    ∃ w : Int64, w.toInt = z ∧ readWord cs = .ok w := by
  have hw : (Int64.ofInt z).toInt = z := toInt_of_word? (if_pos hz)
  exact ⟨Int64.ofInt z, hw, readWord_eq_ok_iff.2 (hw.symm ▸ h)⟩

/-- A decimal whose digits are zeros is zero. -/
lemma Decimal.value_eq_zero {d : Decimal} (h : d.digits = 0) : d.value = 0 := by
  have hsigned : d.signed = 0 := by
    unfold Decimal.signed
    rw [h]
    split <;> rfl
  rw [Decimal.value, hsigned, Int.cast_zero, zero_mul]

/-- The digits of the decimal are few enough to be read: with the point left out they are a word,
those behind the point can be counted, and the power of ten that is computed is a word. -/
structure Decimal.IsShort (d : Decimal) : Prop where
  /-- The digits are those of a word. -/
  digits_lt : d.digits < 9223372036854775808
  /-- The number of digits behind the point is a 32-bit word. -/
  length_le : (d.fraction.length : ℤ) ≤ IntegerRange.half.greatest
  /-- The power of ten is a word; zero needs none. -/
  scale_le : d.digits ≠ 0 → d.wordScale.toInt.natAbs ≤ 18

lemma Decimal.hasShortExponent_iff {d : Decimal} :
    d.hasShortExponent = true ↔ IntegerRange.half.Holds d.exponent := by
  rw [hasShortExponent, Bool.and_eq_true, decide_eq_true_eq, decide_eq_true_eq]
  rfl

lemma Decimal.countable_iff {d : Decimal} : d.countable = true ↔
    d.digits < 9223372036854775808 ∧ (d.fraction.length : ℤ) ≤ IntegerRange.half.greatest := by
  rw [countable, Bool.and_eq_true, decide_eq_true_eq, decide_eq_true_eq]

lemma Decimal.overflows_iff {d : Decimal} :
    d.overflows = true ↔ d.countable = true ∧ d.scale < IntegerRange.half.least := by
  rw [overflows, Bool.and_eq_true, decide_eq_true_eq]

/-- The power of ten is computed modulo 2 ^ 32. -/
lemma Decimal.toInt_wordScale {d : Decimal} (hk : IntegerRange.half.Holds d.exponent)
    (hd : d.countable = true) : d.wordScale.toInt =
      if d.overflows = true then d.scale + 4294967296 else d.scale := by
  obtain ⟨hleast, hgreatest⟩ : -2147483648 ≤ d.exponent ∧ d.exponent ≤ 2147483647 := hk
  have hlength : (d.fraction.length : ℤ) ≤ 2147483647 := (countable_iff.1 hd).2
  have hexponent : (Int32.ofInt d.exponent).toInt = d.exponent :=
    Int32.toInt_ofInt_of_le hleast (by omega)
  have hfraction : (Int32.ofInt d.fraction.length).toInt = d.fraction.length :=
    Int32.toInt_ofInt_of_le (by omega) (by omega)
  have hscale : d.scale = d.exponent - d.fraction.length := rfl
  simp only [overflows_iff, hd, true_and, IntegerRange.half]
  rw [wordScale, Int32.toInt_sub, hexponent, hfraction, ← hscale, Int.bmod_def]
  split <;> split <;> omega

/-- The number that is computed for a decimal is the one that is written, unless the power of ten
overflows. -/
lemma Decimal.wordValue_eq {d : Decimal} (hk : IntegerRange.half.Holds d.exponent)
    (hd : d.countable = true) : d.wordValue =
      if d.overflows = true then d.value * 10 ^ (4294967296 : ℤ) else d.value := by
  have hten : (10 : ℚ) ≠ 0 := by norm_num
  rw [wordValue, toInt_wordScale hk hd, Decimal.value]
  split
  · rw [zpow_add₀ hten, mul_assoc]
  · rfl

/-- A decimal becomes a coefficient exactly if its digits are few enough and what is computed for it
is one. -/
lemma Decimal.toCoeff_eq_ok_iff {d : Decimal} {c : Coeff} :
    d.toCoeff = .ok c ↔ d.IsShort ∧ c.val = d.wordValue := by
  have hnothing : d.digits = 0 → d.wordValue = 0 := by
    intro h
    have hsigned : d.signed = 0 := by
      unfold Decimal.signed
      rw [h]
      split <;> rfl
    rw [Decimal.wordValue, hsigned, Int.cast_zero, zero_mul]
  unfold Decimal.toCoeff
  constructor
  · intro h
    split at h
    · cases h
    next hcountable =>
      obtain ⟨hdigits, hlength⟩ := Decimal.countable_iff.1 (by simpa using hcountable)
      split at h
      next hzero =>
        obtain rfl := Except.ok.inj h
        exact ⟨⟨hdigits, hlength, fun hne => absurd hzero hne⟩, by
          rw [Coeff.val_zero, hnothing hzero]⟩
      next hne =>
        split at h
        · cases h
        next hscale =>
          split at h
          next c' hc =>
            obtain rfl := Except.ok.inj h
            exact ⟨⟨hdigits, hlength, fun _ => not_lt.1 hscale⟩, Coeff.val_of_ofRat? hc⟩
          next => cases h
  · rintro ⟨⟨hdigits, hlength, hscale⟩, hval⟩
    rw [Decimal.countable_iff.2 ⟨hdigits, hlength⟩, Bool.not_true, if_neg Bool.false_ne_true]
    split
    next hzero =>
      rw [hnothing hzero, ← Coeff.val_zero] at hval
      rw [Coeff.ext hval]
    next hne => rw [if_neg (not_lt.2 (hscale hne)), ← hval, Coeff.ofRat?_val]

/-- A quotient keeps its value unless the sign of its denominator cannot be moved; then its sign
changes. -/
lemma Coeff.quotient_eq_ok_iff {p q : Int64} {c : Coeff} : Coeff.quotient p q = .ok c ↔
    c.val = if FitsCoeff (p.toInt / q.toInt) then (p.toInt / q.toInt : ℚ)
      else -(p.toInt / q.toInt) := by
  have hopposite : Rat.divInt p.toInt (-q.toInt) = -(p.toInt / q.toInt : ℚ) := by
    rw [Rat.divInt_eq_div, Int.cast_neg, div_neg]
  have hiff : Coeff.quotient p q = .ok c ↔
      (Coeff.ofRat? (Rat.divInt p.toInt q.toInt) <|>
        Coeff.ofRat? (Rat.divInt p.toInt (-q.toInt))) = some c := by
    unfold Coeff.quotient
    split
    next c' hc => rw [hc, Option.some.injEq, Except.ok.injEq]
    next hc =>
      rw [hc]
      exact iff_of_false nofun nofun
  rw [hiff, Rat.divInt_eq_div, hopposite]
  split
  next hfits =>
    rw [Coeff.ofRat?, dif_pos hfits]
    exact ⟨fun h => (Option.some.inj h) ▸ rfl, fun h => congrArg some (Coeff.ext h.symm)⟩
  next hfits =>
    rw [Coeff.ofRat?_eq_none_iff.2 hfits]
    refine ⟨fun h => Coeff.val_of_ofRat? h, fun h => ?_⟩
    rw [← h, Coeff.ofRat?_val]
    rfl

/-- The arithmetic for a fraction overflows if its quotient is no coefficient, and both its numbers
are words, the second one not zero. -/
lemma Coeff.fractionOverflows_iff {p q : List Char} {m n : ℤ} (hp : IntegerText p m)
    (hq : IntegerText q n) : Coeff.fractionOverflows p q = true ↔
      (FitsWord m ∧ FitsWord n) ∧ n ≠ 0 ∧ ¬FitsCoeff (m / n) := by
  unfold Coeff.fractionOverflows
  split
  next v w hv hw =>
    obtain rfl := hp.unique (readWord_eq_ok_iff.1 hv)
    obtain rfl := hq.unique (readWord_eq_ok_iff.1 hw)
    have hzero : w ≠ 0 ↔ w.toInt ≠ 0 := Int64.toInt_inj.not.symm
    rw [Bool.and_eq_true, decide_eq_true_iff, hzero, Option.isNone_iff_eq_none,
      Coeff.ofRat?_eq_none_iff, Rat.divInt_eq_div,
      and_iff_right (⟨fitsWord_toInt v, fitsWord_toInt w⟩ : FitsWord v.toInt ∧ FitsWord w.toInt)]
  next hne =>
    refine iff_of_false Bool.false_ne_true ?_
    rintro ⟨⟨hm, hn⟩, -, -⟩
    obtain ⟨v, -, hv⟩ := hp.exists_word hm
    obtain ⟨w, -, hw⟩ := hq.exists_word hn
    exact hne v w hv hw

/-- A fraction of two words is read exactly if its quotient is a coefficient, or if its opposite is
where the sign of the denominator cannot be moved. -/
lemma Coeff.readFraction_eq_ok_iff {p q : List Char} {c : Coeff} :
    Coeff.readFraction p q = .ok c ↔ ∃ m n : ℤ, IntegerText p m ∧ IntegerText q n ∧
      (FitsWord m ∧ FitsWord n) ∧ n ≠ 0 ∧
        c.val = if Coeff.fractionOverflows p q = true then -(m / n : ℚ) else m / n := by
  have hval : ∀ {m n : ℤ}, IntegerText p m → IntegerText q n → FitsWord m ∧ FitsWord n → n ≠ 0 →
      (if Coeff.fractionOverflows p q = true then -(m / n : ℚ) else m / n) =
        if FitsCoeff (m / n) then (m / n : ℚ) else -(m / n) := by
    intro m n hp hq hfits hne
    simp only [Coeff.fractionOverflows_iff hp hq, hfits, hne, true_and, ne_eq, not_false_eq_true,
      and_self, ite_not]
  constructor
  · intro h
    unfold Coeff.readFraction at h
    split at h
    next v w hv hw =>
      split at h
      · cases h
      next hne =>
        rw [readWord_eq_ok_iff] at hv hw
        have hfits := And.intro (fitsWord_toInt v) (fitsWord_toInt w)
        have hzero : w.toInt ≠ 0 := fun hzero => hne (Int64.toInt_inj.1 hzero)
        refine ⟨_, _, hv, hw, hfits, hzero, ?_⟩
        rw [hval hv hw hfits hzero]
        exact Coeff.quotient_eq_ok_iff.1 h
    next => cases h
  · rintro ⟨m, n, hp, hq, hfits, hne, h⟩
    rw [hval hp hq hfits hne] at h
    obtain ⟨v, rfl, hv⟩ := hp.exists_word hfits.1
    obtain ⟨w, rfl, hw⟩ := hq.exists_word hfits.2
    have hzero : w ≠ 0 := fun hzero => hne (by rw [hzero]; rfl)
    unfold Coeff.readFraction
    rw [hv, hw]
    simp only [if_neg hzero]
    exact Coeff.quotient_eq_ok_iff.2 h

/-- The exponent of a decimal is looked at before its value. -/
lemma Coeff.readDecimal_of_read? {cs : List Char} {d : Decimal} (hd : Decimal.read? cs = some d) :
    Coeff.readDecimal cs =
      if IntegerRange.half.Holds d.exponent then d.toCoeff else .error .invalid := by
  unfold Coeff.readDecimal
  rw [hd]
  simp only [Decimal.hasShortExponent_iff]

/-- A decimal is read exactly if its exponent has 32 bits, its digits are few enough and what is
computed for it is a coefficient. -/
lemma Coeff.readDecimal_eq_ok_iff {cs : List Char} {c : Coeff} :
    Coeff.readDecimal cs = .ok c ↔ ∃ d, Decimal.read? cs = some d ∧
      IntegerRange.half.Holds d.exponent ∧ d.IsShort ∧ c.val = d.wordValue := by
  cases hd : Decimal.read? cs with
  | none =>
    unfold Coeff.readDecimal
    rw [hd]
    simp
  | some d =>
    simp only [Coeff.readDecimal_of_read? hd, Option.some.injEq, exists_eq_left']
    split
    next hk => rw [Decimal.toCoeff_eq_ok_iff, and_iff_right hk]
    next hk => exact iff_of_false nofun fun h => hk h.1

/-- A build reads as the unchecked one does, unless it stops. -/
lemma Coeff.readIn_eq_some_iff {b : Build} {cs : List Char} {r : Except NumberFault Coeff} :
    Coeff.readIn b cs = some r ↔
      (b = .checked → ¬Coeff.overflows cs = true) ∧ Coeff.read cs = r := by
  unfold Coeff.readIn
  rw [Option.ite_none_left_eq_some, not_and, Option.some.injEq]

/-- The arithmetic for a fraction is that of its sign. -/
lemma Coeff.overflows_of_slash {cs p q : List Char} (h : splitFirst (· == '/') cs = some (p, q)) :
    Coeff.overflows cs = Coeff.fractionOverflows p q := by
  rw [Coeff.overflows, h]

/-- The arithmetic for a decimal is that of its power of ten, once its exponent is read. -/
lemma Coeff.overflows_of_no_slash {cs : List Char} {d : Decimal}
    (h : splitFirst (· == '/') cs = none) (hd : Decimal.read? cs = some d) :
    Coeff.overflows cs = (d.hasShortExponent && d.overflows) := by
  rw [Coeff.overflows, h, hd, Option.any_some]

/-- The number that unchecked arithmetic makes of a token, given the one that the token denotes. -/
def Coeff.computed (cs : List Char) (x : ℚ) : ℚ :=
  if Coeff.overflows cs = false then x
  else if '/' ∈ cs then -x
  else x * 10 ^ (4294967296 : ℤ)

/-- What is computed is not closer to zero than what is denoted. -/
lemma Coeff.abs_le_abs_computed (cs : List Char) (x : ℚ) : |x| ≤ |Coeff.computed cs x| := by
  unfold Coeff.computed
  split
  · exact le_rfl
  split
  · rw [abs_neg]
  · have hpow : (1 : ℚ) ≤ 10 ^ (4294967296 : ℤ) := one_le_zpow₀ (by norm_num) (by norm_num)
    rw [abs_mul, abs_of_pos (zero_lt_one.trans_le hpow)]
    exact le_mul_of_one_le_right (abs_nonneg x) hpow

/-- A slash in a token cuts it. -/
lemma mem_of_splitFirst {cs p q : List Char} (h : splitFirst (· == '/') cs = some (p, q)) :
    '/' ∈ cs := by
  rw [eq_append_of_slash h]
  exact List.mem_append_right _ List.mem_cons_self

/-- A decimal is computed in its own way. -/
lemma Coeff.computed_of_read? {cs : List Char} {d : Decimal} (hd : Decimal.read? cs = some d)
    (hk : IntegerRange.half.Holds d.exponent) (hcountable : d.countable = true) :
    Coeff.computed cs d.value = d.wordValue := by
  have hslash : ∀ c ∈ cs, (c == '/') = false := (decimalText_iff.2 ⟨d, hd, rfl⟩).no_slash
  have hoverflows : Coeff.overflows cs = d.overflows := by
    rw [Coeff.overflows_of_no_slash (splitFirst_eq_none hslash) hd,
      Decimal.hasShortExponent_iff.2 hk, Bool.true_and]
  have hnone : '/' ∉ cs := fun hmem => absurd (hslash _ hmem) (by decide)
  rw [Coeff.computed, hoverflows, Decimal.wordValue_eq hk hcountable]
  cases d.overflows <;> simp [hnone]

/-- A fraction is computed in its own way. -/
lemma Coeff.computed_of_slash {cs p q : List Char} (h : splitFirst (· == '/') cs = some (p, q))
    (x : ℚ) : Coeff.computed cs x = if Coeff.fractionOverflows p q = true then -x else x := by
  rw [Coeff.computed, if_pos (mem_of_splitFirst h), Coeff.overflows_of_slash h]
  cases Coeff.fractionOverflows p q <;> rfl

/-- A token that is read denotes a number, and the coefficient is what is computed for it. -/
lemma Coeff.exists_numeral_of_read {cs : List Char} {c : Coeff} (h : Coeff.read cs = .ok c) :
    ∃ x, Numeral cs x ∧ c.val = Coeff.computed cs x := by
  cases hsplit : splitFirst (· == '/') cs with
  | none =>
    have hread : Coeff.readDecimal cs = .ok c := by rwa [Coeff.read, hsplit] at h
    obtain ⟨d, hd, hk, hshort, hval⟩ := Coeff.readDecimal_eq_ok_iff.1 hread
    refine ⟨d.value, (numeral_iff_of_no_slash hsplit).2 ⟨d, hd, rfl⟩, ?_⟩
    rw [hval, Coeff.computed_of_read? hd hk
      (Decimal.countable_iff.2 ⟨hshort.digits_lt, hshort.length_le⟩)]
  | some parts =>
    obtain ⟨p, q⟩ := parts
    have hread : Coeff.readFraction p q = .ok c := by rwa [Coeff.read, hsplit] at h
    obtain ⟨k, l, hp, hq, -, hne, hval⟩ := Coeff.readFraction_eq_ok_iff.1 hread
    refine ⟨k / l, (numeral_iff_of_slash hsplit).2 ⟨k, l, hp, hq, hne, rfl⟩, ?_⟩
    rw [hval, Coeff.computed_of_slash hsplit]

/-- A quotient of words by a positive one is a coefficient. -/
lemma fitsCoeff_div {m n : ℤ} (hm : FitsWord m) (hn : FitsWord n) (hpos : 0 < n) :
    FitsCoeff (m / n : ℚ) := by
  unfold FitsCoeff FitsWord at *
  rw [← Rat.divInt_eq_div]
  have hden : ((Rat.divInt m n).den : ℤ) ≤ n := Int.le_of_dvd hpos (Rat.den_dvd m n)
  refine ⟨?_, by omega, by omega⟩
  have hdvd : (Rat.divInt m n).num.natAbs ∣ m.natAbs :=
    Int.natAbs_dvd_natAbs.2 (Rat.num_dvd m hpos.ne')
  rcases lt_trichotomy m 0 with hneg | rfl | hpos'
  · have hnum : (Rat.divInt m n).num.natAbs ≤ m.natAbs := Nat.le_of_dvd (by omega) hdvd
    have hsign : (Rat.divInt m n).num ≤ 0 := by
      rw [Rat.num_nonpos, Rat.divInt_eq_div]
      exact div_nonpos_of_nonpos_of_nonneg (by exact_mod_cast hneg.le) (by exact_mod_cast hpos.le)
    omega
  · rw [Rat.zero_divInt, Rat.num_zero]
    omega
  · have hnum : (Rat.divInt m n).num.natAbs ≤ m.natAbs := Nat.le_of_dvd (by omega) hdvd
    omega

/-- A fraction whose denominator is positive, or whose numbers are above the least word, does not
overflow. -/
lemma Coeff.fractionOverflows_eq_false {p q : List Char} {m n : ℤ} (hp : IntegerText p m)
    (hq : IntegerText q n)
    (hsign : 0 < n ∨ -9223372036854775808 < m ∧ -9223372036854775808 < n) :
    Coeff.fractionOverflows p q = false := by
  rw [← Bool.not_eq_true, Coeff.fractionOverflows_iff hp hq]
  rintro ⟨⟨hm, hn⟩, hne, hfits⟩
  unfold FitsWord at hm hn
  apply hfits
  -- the quotient is the one of words whose second one is positive
  rcases hne.lt_or_gt with hneg | hpos
  · obtain ⟨hm', hn'⟩ := hsign.resolve_left (not_lt.2 hneg.le)
    have hopposite : ((-m : ℤ) : ℚ) / (-n : ℤ) = m / n := by
      push_cast
      exact neg_div_neg_eq _ _
    rw [← hopposite]
    exact fitsCoeff_div (by unfold FitsWord; omega) (by unfold FitsWord; omega) (by omega)
  · exact fitsCoeff_div hm hn hpos

/-- An overflow of the power of ten takes a fraction of more than 2 ^ 31 - 19 digits. -/
lemma Decimal.le_length_of_overflows {d : Decimal} (hk : IntegerRange.half.Holds d.exponent)
    (hshort : d.IsShort) (hne : d.digits ≠ 0) (h : d.overflows = true) :
    2147483630 ≤ d.fraction.length := by
  have hscale := hshort.scale_le hne
  rw [Decimal.toInt_wordScale hk (Decimal.overflows_iff.1 h).1, if_pos h, Decimal.scale] at hscale
  have hleast : -2147483648 ≤ d.exponent := hk.1
  omega

/-- What is computed for a token of which a coefficient comes is what the token denotes, unless the
arithmetic overflows, which takes a fraction of more than 2 ^ 31 - 19 digits. -/
lemma Coeff.val_eq_or_of_read {cs : List Char} {c : Coeff} {x : ℚ} (h : Coeff.read cs = .ok c)
    (hx : Numeral cs x) (hsign : ∀ p q m n, cs = p ++ '/' :: q → IntegerText p m →
      IntegerText q n → 0 < n ∨ -9223372036854775808 < m ∧ -9223372036854775808 < n) :
    c.val = x ∨ Coeff.overflows cs = true ∧ 2147483630 ≤ cs.length ∧
      c.val = x * 10 ^ (4294967296 : ℤ) := by
  obtain ⟨y, hy, hval⟩ := Coeff.exists_numeral_of_read h
  obtain rfl := hx.unique hy
  cases hoverflows : Coeff.overflows cs with
  | false => exact .inl (by rw [hval, Coeff.computed, if_pos hoverflows])
  | true =>
    cases hsplit : splitFirst (· == '/') cs with
    | none =>
      have hread : Coeff.readDecimal cs = .ok c := by rwa [Coeff.read, hsplit] at h
      obtain ⟨d, hd, hk, hshort, hword⟩ := Coeff.readDecimal_eq_ok_iff.1 hread
      obtain rfl := hx.unique ((numeral_iff_of_no_slash hsplit).2 ⟨d, hd, rfl⟩)
      have hdecimal : d.overflows = true := by
        rwa [Coeff.overflows_of_no_slash hsplit hd, Decimal.hasShortExponent_iff.2 hk,
          Bool.true_and] at hoverflows
      have hvalue := hword.trans (Decimal.wordValue_eq hk (Decimal.overflows_iff.1 hdecimal).1)
      rw [if_pos hdecimal] at hvalue
      by_cases hne : d.digits = 0
      · rw [Decimal.value_eq_zero hne, zero_mul] at hvalue
        exact .inl (hvalue.trans (Decimal.value_eq_zero hne).symm)
      · exact .inr ⟨rfl, (Decimal.le_length_of_overflows hk hshort hne hdecimal).trans
          (Decimal.length_fraction_le hd), hvalue⟩
    | some parts =>
      obtain ⟨p, q⟩ := parts
      obtain ⟨m, n, hp, hq, -, -⟩ := (numeral_iff_of_slash hsplit).1 hx
      have hnone : Coeff.overflows cs = false := by
        rw [Coeff.overflows_of_slash hsplit]
        exact Coeff.fractionOverflows_eq_false hp hq
          (hsign p q m n (eq_append_of_slash hsplit) hp hq)
      rw [hnone] at hoverflows
      cases hoverflows

/-- **Number tokens are read exactly**: a token that is read is a fraction of two integers or a
decimal with an optional power of ten, and the coefficient, which is in lowest terms, is the one
number that it denotes. Fractions are those with a positive denominator, or with numbers above the
least word.

With arithmetic that is checked this holds for every token. Without checks the power of ten, which
is computed in 32 bits, can wrap around. A coefficient that comes of this belongs to a token of at
least 2 ^ 31 - 18 characters, and is too large by 2 ^ 32 powers of ten. -/
theorem Coeff.numeral_iff_of_read {b : Build} {cs : List Char} {c : Coeff}
    (h : Coeff.readIn b cs = some (.ok c))
    (hsign : ∀ p q m n, cs = p ++ '/' :: q → IntegerText p m → IntegerText q n →
      0 < n ∨ -9223372036854775808 < m ∧ -9223372036854775808 < n) :
    ∃ x, (∀ q, Numeral cs q ↔ q = x) ∧ c.val.num.natAbs.Coprime c.val.den ∧
      (c.val = x ∨
        b = .unchecked ∧ 2147483630 ≤ cs.length ∧ c.val = x * 10 ^ (4294967296 : ℤ)) := by
  obtain ⟨hbuild, hread⟩ := Coeff.readIn_eq_some_iff.1 h
  obtain ⟨x, hx, -⟩ := Coeff.exists_numeral_of_read hread
  refine ⟨x, fun q => ⟨fun hq => hq.unique hx, fun hq => hq ▸ hx⟩, c.val.reduced, ?_⟩
  rcases Coeff.val_eq_or_of_read hread hx hsign with hval | ⟨hoverflows, hlong, hval⟩
  · exact .inl hval
  · refine .inr ⟨?_, hlong, hval⟩
    cases b with
    | unchecked => rfl
    | checked => exact absurd hoverflows (hbuild rfl)

/-- A decimal with a power of ten is read as a fraction in lowest terms, in either build. -/
theorem Coeff.numeral_iff_of_read_decimal :
    Coeff.readIn .checked "-1.50E-1".toList =
        some (.ok ⟨⟨-3, 20, by decide, by decide⟩, by decide⟩) ∧
      ∃ x, (∀ q, Numeral "-1.50E-1".toList q ↔ q = x) ∧ Nat.Coprime 3 20 ∧
        (⟨-3, 20, by decide, by decide⟩ = x ∨ Build.checked = .unchecked ∧
          2147483630 ≤ "-1.50E-1".toList.length ∧
          ⟨-3, 20, by decide, by decide⟩ = x * 10 ^ (4294967296 : ℤ)) := by
  have hread : Coeff.readIn .checked "-1.50E-1".toList =
      some (.ok ⟨⟨-3, 20, by decide, by decide⟩, by decide⟩) := by decide +kernel
  refine ⟨hread, Coeff.numeral_iff_of_read hread fun p q m n hslash _ _ => ?_⟩
  have hmem : '/' ∈ "-1.50E-1".toList := hslash ▸ List.mem_append_right p List.mem_cons_self
  exact absurd hmem (by decide +kernel)

/-- A one behind a number of zeros and with the least exponent. -/
def farOne (zeros : ℕ) : List Char :=
  "0.".toList ++ List.replicate zeros '0' ++ "1e-2147483648".toList

/-- The parts of the decimal. -/
lemma read?_farOne (n : ℕ) : Decimal.read? (farOne n) =
    some ⟨false, ['0'], List.replicate n '0' ++ ['1'], -2147483648⟩ := by
  have hdigits : ∀ c ∈ List.replicate n '0' ++ ['1'], c.isDigit = true := by
    intro c hc
    rw [List.mem_append, List.mem_replicate, List.mem_singleton] at hc
    rcases hc with ⟨-, rfl⟩ | rfl <;> decide
  have hletter : ∀ c ∈ '0' :: '.' :: (List.replicate n '0' ++ ['1']),
      (c == 'e' || c == 'E') = false := by
    intro c hc
    rcases List.mem_cons.1 hc with rfl | hc
    · decide
    rcases List.mem_cons.1 hc with rfl | hc
    · decide
    have hlower : c ≠ 'e' := ne_of_isDigit (hdigits c hc) (by decide)
    have hupper : c ≠ 'E' := ne_of_isDigit (hdigits c hc) (by decide)
    simp [hlower, hupper]
  have htext : farOne n =
      '0' :: '.' :: (List.replicate n '0' ++ ['1']) ++ 'e' :: "-2147483648".toList := by
    simp [farOne]
  have hexponent : Decimal.readExponent? "-2147483648".toList = some (-2147483648) := by
    decide +kernel
  have hmantissa : Decimal.readMantissa? (-2147483648)
      ('0' :: '.' :: (List.replicate n '0' ++ ['1'])) =
        some ⟨false, ['0'], List.replicate n '0' ++ ['1'], -2147483648⟩ := by
    simp [Decimal.readMantissa?, splitFirst]
  rw [Decimal.read?, htext, splitFirst_append hletter (by decide)]
  simp only [hexponent, hmantissa, Option.bind_eq_bind, Option.bind_some]

/-- The digits of the decimal are a one. -/
lemma digits_farOne (n : ℕ) :
    Decimal.digits ⟨false, ['0'], List.replicate n '0' ++ ['1'], -2147483648⟩ = 1 := by
  have hzeros : Nat.ofDigitChars 10 (List.replicate n '0') 0 = 0 := by
    induction n with
    | zero => rfl
    | succ n ih => rwa [List.replicate_succ, Nat.ofDigitChars_cons]
  have hsplit : Decimal.digits ⟨false, ['0'], List.replicate n '0' ++ ['1'], -2147483648⟩ =
      Nat.ofDigitChars 10 ['1'] (Nat.ofDigitChars 10 (List.replicate n '0') 0) := by
    rw [Decimal.digits, valueOf_eq_ofDigitChars, List.singleton_append, Nat.ofDigitChars_cons,
      Nat.ofDigitChars_append]
    rfl
  rw [hsplit, hzeros]
  rfl

/-- With so many zeros the power of ten overflows, and what is computed is a power of ten above
one. -/
lemma Coeff.read_farOne {n k : ℕ} (hsum : n + k = 2147483647) (hpos : 0 < k) (hle : k ≤ 18) :
    ∃ c : Coeff, Coeff.read (farOne n) = .ok c ∧ c.val = 10 ^ k ∧
      Numeral (farOne n) (10 ^ (k - 4294967296 : ℤ)) := by
  have hread := read?_farOne n
  have hdigits := digits_farOne n
  set d : Decimal := ⟨false, ['0'], List.replicate n '0' ++ ['1'], -2147483648⟩ with hd
  have hlength : (d.fraction.length : ℤ) = n + 1 := by simp [hd]
  have hexponent : IntegerRange.half.Holds d.exponent := by
    show (-2147483648 : ℤ) ≤ -2147483648 ∧ (-2147483648 : ℤ) ≤ 2147483647
    omega
  have hcount : (d.fraction.length : ℤ) ≤ IntegerRange.half.greatest := by
    show (d.fraction.length : ℤ) ≤ 2147483647
    omega
  have hcountable : d.countable = true := Decimal.countable_iff.2 ⟨by omega, hcount⟩
  have hscale : d.scale = k - 4294967296 := by
    show (-2147483648 : ℤ) - d.fraction.length = _
    omega
  have hoverflows : d.overflows = true := by
    refine Decimal.overflows_iff.2 ⟨hcountable, ?_⟩
    show d.scale < -2147483648
    omega
  have hword : d.wordScale.toInt = k := by
    rw [Decimal.toInt_wordScale hexponent hcountable, if_pos hoverflows, hscale]
    omega
  have hshort : d.IsShort := ⟨by omega, hcount, fun _ => by omega⟩
  have hsigned : d.signed = 1 := by
    show ((d.digits : ℕ) : ℤ) = 1
    rw [hdigits, Nat.cast_one]
  have hwordValue : d.wordValue = (10 ^ k : ℕ) := by
    rw [Decimal.wordValue, hsigned, hword, zpow_natCast, Int.cast_one, one_mul, Nat.cast_pow]
    rfl
  have hfits : FitsCoeff (10 ^ k : ℕ) := by
    have hpow : 10 ^ k ≤ 10 ^ 18 := Nat.pow_le_pow_right (by decide) hle
    have hone : 1 ≤ 10 ^ k := Nat.one_le_pow k 10 (by decide)
    rw [FitsCoeff, Rat.num_natCast, Rat.den_natCast]
    refine ⟨?_, by decide⟩
    unfold FitsWord
    omega
  have hvalue : d.value = 10 ^ (k - 4294967296 : ℤ) := by
    rw [Decimal.value, hsigned, hscale, Int.cast_one, one_mul]
  have hnone : splitFirst (· == '/') (farOne n) = none :=
    splitFirst_eq_none (decimalText_iff.2 ⟨d, hread, rfl⟩).no_slash
  refine ⟨⟨_, hfits⟩, ?_, Nat.cast_pow 10 k, (numeral_iff_of_no_slash hnone).2 ⟨d, hread, hvalue⟩⟩
  rw [Coeff.read, hnone]
  exact Coeff.readDecimal_eq_ok_iff.2 ⟨d, hread, hexponent, hshort, hwordValue.symm⟩

/-- Without checks a hundred million is read from a token without a slash that denotes a number far
below one. -/
theorem Coeff.read_wraps_around : ∃ (c : Coeff) (x : ℚ), '/' ∉ farOne 2147483639 ∧
    Coeff.readIn .unchecked (farOne 2147483639) = some (.ok c) ∧ Numeral (farOne 2147483639) x ∧
      c.val = 10 ^ 8 ∧ x = 10 ^ (-4294967288 : ℤ) ∧ c.val ≠ x := by
  obtain ⟨c, hread, hval, hx⟩ :=
    Coeff.read_farOne (n := 2147483639) (k := 8) (by omega) (by decide) (by decide)
  have hslash : '/' ∉ farOne 2147483639 := fun hmem =>
    absurd ((decimalText_iff.2 ⟨_, read?_farOne _, rfl⟩).no_slash _ hmem) (by decide)
  refine ⟨c, _, hslash, Coeff.readIn_eq_some_iff.2 ⟨nofun, hread⟩, hx, hval, rfl, ?_⟩
  have hbelow : (10 : ℚ) ^ (-4294967288 : ℤ) < 10 ^ (8 : ℤ) :=
    zpow_lt_zpow_right₀ (by norm_num) (by decide)
  rw [hval]
  exact hbelow.ne'

end LinearInterchange
