import LinearInterchange.Number.Decimal
import LinearInterchange.Proofs.Parsing
import Mathlib.Algebra.Order.Field.Rat
import Mathlib.Data.Rat.Lemmas
import Mathlib.Tactic.Linarith

/-!
# Numbers as text and back

Integers and coefficients are written in decimal digits, with a minus sign in front and, for
fractions, a slash between numerator and denominator.  The parsers and the readers of numbers get
back what was written.  The only exception is the least integer of a word as a coefficient: a
decimal is read as a magnitude with a sign, and that magnitude is out of range.
-/

namespace LinearInterchange.Text

/-! ## Digits -/

lemma toNat_of_isDigit {c : Char} (h : c.isDigit = true) : 48 ≤ c.toNat ∧ c.toNat ≤ 57 := by
  simp only [Char.isDigit, Bool.and_eq_true, decide_eq_true_eq, ge_iff_le] at h
  exact ⟨UInt32.le_iff_toNat_le.1 h.1, UInt32.le_iff_toNat_le.1 h.2⟩

lemma isBlank_of_isDigit {c : Char} (h : c.isDigit = true) : isBlank c = false := by
  have hcode := toNat_of_isDigit h
  simp only [isBlank, blankRanges, List.any_cons, List.any_nil, Bool.or_false,
    Bool.or_eq_false_iff, Bool.and_eq_false_iff, decide_eq_false_iff_not]
  omega

lemma ne_of_isDigit {c d : Char} (h : c.isDigit = true) (hd : d.isDigit = false) : c ≠ d := by
  rintro rfl
  rw [h] at hd
  cases hd

lemma isDigit_of_mem {n : ℕ} {c : Char} (h : c ∈ Nat.toDigits 10 n) : c.isDigit = true :=
  Nat.isDigit_of_mem_toDigits (by decide) (by decide) h

/-- The digits of a number begin with a digit. -/
lemma exists_toDigits_eq_cons (n : ℕ) :
    ∃ c cs, Nat.toDigits 10 n = c :: cs ∧ c.isDigit = true := by
  cases hn : Nat.toDigits 10 n with
  | nil => exact absurd hn Nat.toDigits_ne_nil
  | cons c cs =>
    have hc : c.isDigit = true := isDigit_of_mem (hn ▸ List.mem_cons_self)
    exact ⟨c, cs, rfl, hc⟩

lemma stops_digits {p : Char → Bool} {n : ℕ} {rest : List Char}
    (h : ∀ c : Char, c.isDigit = true → p c = false) : Stops p (Nat.toDigits 10 n ++ rest) := by
  obtain ⟨c, cs, hdigits, hc⟩ := exists_toDigits_eq_cons n
  rw [hdigits]
  exact stops_cons (h c hc)

lemma toList_toString_nat (n : ℕ) : (toString n).toList = Nat.toDigits 10 n := by
  rw [Nat.toString_eq_repr, Nat.toList_repr]

lemma toList_toString_index (n : UInt32) : (toString n).toList = Nat.toDigits 10 n.toNat :=
  toList_toString_nat n.toNat

lemma valueOf_toDigits (n : ℕ) : Parser.valueOf (Nat.toDigits 10 n) = n := by
  have h := Nat.ofDigitChars_ten_toDigits (n := n)
  rwa [Nat.ofDigitChars_eq_foldl] at h

/-! ## Integers -/

/-- The sign of an integer as it is written. -/
def signOf (z : ℤ) : List Char :=
  if z < 0 then ['-'] else []

/-- The text of an integer is its sign and the digits of its magnitude. -/
lemma toList_toString_int (z : ℤ) :
    (toString z).toList = signOf z ++ Nat.toDigits 10 z.natAbs := by
  rw [Int.toString_eq_repr, Int.repr_eq_if, signOf]
  split
  case isTrue h =>
    rw [if_neg (not_lt.2 h), List.nil_append, Nat.toList_repr]
    congr 1
    omega
  case isFalse h =>
    rw [if_pos (not_le.1 h), String.toList_append, Nat.toList_repr]
    have habs : (-z).toNat = z.natAbs := by omega
    rw [habs]
    rfl

lemma toList_toString_natCast (n : ℕ) : (toString (n : ℤ)).toList = Nat.toDigits 10 n := by
  rw [toList_toString_int, signOf, if_neg (by omega), Int.natAbs_natCast, List.nil_append]

/-- The text of an integer has characters other than digits only in its sign. -/
lemma isDigit_or_minus {z : ℤ} {c : Char} (h : c ∈ (toString z).toList) :
    c.isDigit = true ∨ c = '-' := by
  rw [toList_toString_int, List.mem_append] at h
  rcases h with h | h
  · unfold signOf at h
    split at h
    · exact .inr (List.mem_singleton.1 h)
    · exact absurd h List.not_mem_nil
  · exact .inl (isDigit_of_mem h)

/-- The text of an integer begins with a digit or a minus sign. -/
lemma stops_toString_int {p : Char → Bool} {z : ℤ} {rest : List Char}
    (h : ∀ c : Char, c.isDigit = true → p c = false) (hminus : p '-' = false) :
    Stops p ((toString z).toList ++ rest) := by
  rw [toList_toString_int, signOf, List.append_assoc]
  split
  · exact stops_cons hminus
  · exact stops_digits h

/-- A magnitude with a sign. -/
def withSign (negative : Bool) (n : ℕ) : ℤ :=
  if negative then -n else n

@[simp] lemma withSign_true (n : ℕ) : withSign true n = -n := rfl

@[simp] lemma withSign_false (n : ℕ) : withSign false n = n := rfl

/-- An integer is its magnitude with its sign. -/
lemma withSign_natAbs (z : ℤ) : withSign (decide (z < 0)) z.natAbs = z := by
  unfold withSign
  by_cases h : z < 0
  · rw [if_pos (decide_eq_true h)]
    omega
  · rw [if_neg (by simpa using h)]
    omega

namespace Parser

/-- The sign of an integer is read. -/
lemma sign_append (z : ℤ) (rest : List Char) :
    sign (signOf z ++ (Nat.toDigits 10 z.natAbs ++ rest)) =
      some (decide (z < 0), Nat.toDigits 10 z.natAbs ++ rest) := by
  unfold sign signOf
  by_cases hz : z < 0
  · rw [if_pos hz, List.singleton_append,
      bind_of_eq_some (optional?_of_eq_some (satisfy_cons (by decide))), decide_eq_true hz]
    rfl
  · have hstops : Stops (fun c => c == '+' || c == '-') (Nat.toDigits 10 z.natAbs ++ rest) := by
      apply stops_digits
      intro c hc
      have hplus : c ≠ '+' := ne_of_isDigit hc (by decide)
      have hminus : c ≠ '-' := ne_of_isDigit hc (by decide)
      simp [hplus, hminus]
    rw [if_neg hz, List.nil_append,
      bind_of_eq_some (optional?_of_eq_none (satisfy_of_stops hstops)), decide_eq_false hz]
    rfl

lemma digits1_append {n : ℕ} {rest : List Char} (h : Stops Char.isDigit rest) :
    digits1 (Nat.toDigits 10 n ++ rest) = some (Nat.toDigits 10 n, rest) :=
  run1_append (fun _ => isDigit_of_mem) Nat.toDigits_ne_nil h

/-- A word is read as it was written. -/
lemma word_append (w : Int64) {rest : List Char} (h : Stops Char.isDigit rest) :
    word ((toString w).toList ++ rest) = some (w, rest) := by
  show word ((toString w.toInt).toList ++ rest) = _
  have hvalue := withSign_natAbs w.toInt
  unfold withSign at hvalue
  rw [toList_toString_int, List.append_assoc, word, bind_of_eq_some (sign_append _ _),
    bind_of_eq_some (digits1_append h), valueOf_toDigits, hvalue, word?_toInt]
  rfl

lemma index_append (n : UInt32) {rest : List Char} (h : Stops Char.isDigit rest) :
    index ((toString n).toList ++ rest) = some (n, rest) := by
  rw [toList_toString_index, index, bind_of_eq_some (digits1_append h), valueOf_toDigits,
    if_pos n.toNat_lt_size, UInt32.ofNat_toNat]
  rfl

end Parser

/-! ## Words as whole texts -/

/-- Digits do not make a number smaller. -/
lemma le_ofDigitChars (n : ℕ) (ds : List Char) : n ≤ Nat.ofDigitChars 10 ds n := by
  induction ds generalizing n with
  | nil => rw [Nat.ofDigitChars_nil]
  | cons c ds ih =>
    rw [Nat.ofDigitChars_cons]
    have := ih (10 * n + (c.toNat - '0'.toNat))
    omega

/-- A digit is appended away from zero. -/
lemma withSign_digit (negative : Bool) (n d : ℕ) :
    (if negative then 10 * withSign negative n - (d : ℤ) else 10 * withSign negative n + d) =
      withSign negative (10 * n + d) := by
  cases negative
  · simp
  · simp
    omega

/-- Digits are appended as long as the number that they lead to is in range. -/
lemma appendDigits_eq_ok {range : IntegerRange} {negative : Bool} {n : ℕ} {ds : List Char}
    (hds : ∀ c ∈ ds, c.isDigit = true) (hleast : range.least ≤ 0) (hgreatest : 0 ≤ range.greatest)
    (hlow : range.least ≤ withSign negative (Nat.ofDigitChars 10 ds n))
    (hhigh : withSign negative (Nat.ofDigitChars 10 ds n) ≤ range.greatest) :
    appendDigits range negative (withSign negative n) ds =
      .ok (withSign negative (Nat.ofDigitChars 10 ds n)) := by
  induction ds generalizing n with
  | nil => rfl
  | cons c ds ih =>
    rw [Nat.ofDigitChars_cons] at hlow hhigh ⊢
    have hdigit : digit? c = some (c.toNat - '0'.toNat) := if_pos (hds c List.mem_cons_self)
    rw [appendDigits, hdigit]
    generalize c.toNat - '0'.toNat = d at hlow hhigh ⊢
    -- the number so far is nearer to zero than the one that it leads to
    have hle := le_ofDigitChars (10 * n + d) ds
    have hbounds : range.least ≤ withSign negative (10 * n + d) ∧
        withSign negative (10 * n + d) ≤ range.greatest := by
      cases negative <;> simp only [withSign_true, withSign_false] at hlow hhigh ⊢ <;> omega
    dsimp only
    rw [withSign_digit, if_neg (not_lt.2 hbounds.2), if_neg (not_lt.2 hbounds.1)]
    exact ih (fun e he => hds e (List.mem_cons_of_mem _ he)) hlow hhigh

/-- The digits of a word lead to the word. -/
lemma appendDigits_natAbs {z : ℤ} (h : FitsWord z) :
    appendDigits .word (decide (z < 0)) 0 (Nat.toDigits 10 z.natAbs) = .ok z := by
  have hsign := withSign_natAbs z
  have hvalue := Nat.ofDigitChars_ten_toDigits (n := z.natAbs)
  have hzero : withSign (decide (z < 0)) 0 = 0 := by cases decide (z < 0) <;> rfl
  have happend : appendDigits .word (decide (z < 0)) (withSign (decide (z < 0)) 0)
      (Nat.toDigits 10 z.natAbs) = .ok (withSign (decide (z < 0))
        (Nat.ofDigitChars 10 (Nat.toDigits 10 z.natAbs) 0)) := by
    apply appendDigits_eq_ok (fun _ => isDigit_of_mem) (by decide) (by decide)
    · rw [hvalue, hsign]
      exact h.1
    · rw [hvalue, hsign]
      exact h.2
  rwa [hvalue, hsign, hzero] at happend

/-- A word is read as an integer from its whole text. -/
lemma readInteger_toString {z : ℤ} (h : FitsWord z) :
    readInteger .word (toString z).toList = .ok z := by
  have happend := appendDigits_natAbs h
  obtain ⟨c, cs, hdigits, hc⟩ := exists_toDigits_eq_cons z.natAbs
  rw [toList_toString_int, signOf, hdigits]
  rw [hdigits] at happend
  by_cases hz : z < 0
  · rw [decide_eq_true hz] at happend
    rw [if_pos hz]
    exact happend
  · rw [decide_eq_false hz] at happend
    rw [if_neg hz, List.nil_append]
    have hplus : c ≠ '+' := ne_of_isDigit hc (by decide)
    have hminus : c ≠ '-' := ne_of_isDigit hc (by decide)
    unfold readInteger
    split <;> simp_all

lemma readWord_toString {z : ℤ} (h : FitsWord z) :
    readWord (toString z).toList = .ok (Int64.ofInt z) := by
  rw [readWord, readInteger_toString h]
  rfl

end LinearInterchange.Text

namespace LinearInterchange

open Text

variable {c : Coeff}

/-! ## Coefficients -/

lemma Coeff.toText_of_den_eq_one (h : c.val.den = 1) :
    c.toText.toList = (toString c.val.num).toList := by
  rw [Coeff.toText, if_pos h]

/-- The text of a coefficient with a fraction has the numerator before a slash and the denominator
after it. -/
lemma Coeff.toText_of_den_ne_one (h : c.val.den ≠ 1) :
    c.toText.toList = (toString c.val.num).toList ++ '/' :: Nat.toDigits 10 c.val.den := by
  rw [Coeff.toText, if_neg h, String.toList_append, String.toList_append, List.append_assoc,
    toList_toString_nat]
  rfl

/-- The text of a coefficient begins with a digit or a minus sign. -/
lemma Coeff.stops_toText {p : Char → Bool} {rest : List Char}
    (h : ∀ d : Char, d.isDigit = true → p d = false) (hminus : p '-' = false) :
    Stops p (c.toText.toList ++ rest) := by
  by_cases hden : c.val.den = 1
  · rw [Coeff.toText_of_den_eq_one hden]
    exact stops_toString_int h hminus
  · rw [Coeff.toText_of_den_ne_one hden, List.append_assoc]
    exact stops_toString_int h hminus

/-- The text of a coefficient is free of white space. -/
lemma Coeff.isBlank_of_mem_toText {d : Char} (h : d ∈ c.toText.toList) : isBlank d = false := by
  have hint : ∀ e ∈ (toString c.val.num).toList, isBlank e = false := by
    intro e he
    rcases isDigit_or_minus he with hdigit | rfl
    · exact isBlank_of_isDigit hdigit
    · decide
  by_cases hden : c.val.den = 1
  · exact hint d (Coeff.toText_of_den_eq_one hden ▸ h)
  · rw [Coeff.toText_of_den_ne_one hden, List.mem_append, List.mem_cons] at h
    rcases h with h | rfl | h
    · exact hint d h
    · decide
    · exact isBlank_of_isDigit (isDigit_of_mem h)

/-- The text of a coefficient is not empty. -/
lemma Coeff.toText_ne_nil (c : Coeff) : c.toText.toList ≠ [] := by
  by_cases hden : c.val.den = 1
  · rw [Coeff.toText_of_den_eq_one hden, toList_toString_int]
    exact List.append_ne_nil_of_right_ne_nil _ Nat.toDigits_ne_nil
  · rw [Coeff.toText_of_den_ne_one hden]
    exact List.append_ne_nil_of_right_ne_nil _ (List.cons_ne_nil _ _)

/-- The token of a coefficient is taken up to its end. -/
lemma fractionToken_append (c : Coeff) {rest : List Char}
    (h : Stops (fun d => d.isDigit || d == '/') rest) :
    fractionToken (c.toText.toList ++ rest) = some (c.toText.toList, rest) := by
  have hdigit : Stops Char.isDigit rest := fun d hd => (Bool.or_eq_false_iff.1 (h d hd)).1
  have hslash : Stops (· == '/') rest := fun d hd => (Bool.or_eq_false_iff.1 (h d hd)).2
  refine Parser.accepted_append (a := ()) ?_
  by_cases hden : c.val.den = 1
  · have hnone : (Parser.char '/' >>= fun _ => Parser.digits1) rest = none :=
      Parser.bind_of_eq_none (Parser.char_of_stops hslash)
    rw [Coeff.toText_of_den_eq_one hden, toList_toString_int, List.append_assoc,
      Parser.bind_of_eq_some (Parser.sign_append _ _),
      Parser.bind_of_eq_some (Parser.digits1_append hdigit),
      Parser.bind_of_eq_some (Parser.optional?_of_eq_none hnone)]
    rfl
  · have hafter : Stops Char.isDigit ('/' :: (Nat.toDigits 10 c.val.den ++ rest)) :=
      stops_cons (by decide)
    have hsome : (Parser.char '/' >>= fun _ => Parser.digits1)
        ('/' :: (Nat.toDigits 10 c.val.den ++ rest)) = some (Nat.toDigits 10 c.val.den, rest) := by
      rw [Parser.bind_of_eq_some (Parser.char_cons _ _), Parser.digits1_append hdigit]
    rw [Coeff.toText_of_den_ne_one hden, toList_toString_int, List.append_assoc, List.append_assoc,
      List.cons_append, Parser.bind_of_eq_some (Parser.sign_append _ _),
      Parser.bind_of_eq_some (Parser.digits1_append hafter),
      Parser.bind_of_eq_some (Parser.optional?_of_eq_some hsome)]
    rfl

/-- A coefficient with a fraction is read as it was written. -/
lemma Coeff.readFraction_toText (c : Coeff) :
    Coeff.readFraction (toString c.val.num).toList (Nat.toDigits 10 c.val.den) = .ok c := by
  have hp : (Int64.ofInt c.val.num).toInt = c.val.num := toInt_of_word? (if_pos c.fits.1)
  have hq : (Int64.ofInt c.val.den).toInt = c.val.den := toInt_of_word? (if_pos c.fits.2)
  have hne : Int64.ofInt c.val.den ≠ 0 := by
    intro h
    rw [h] at hq
    have hpos := c.val.den_pos
    have hzero : (0 : Int64).toInt = 0 := rfl
    omega
  have hval : Rat.divInt c.val.num c.val.den = c.val := Rat.num_divInt_den _
  unfold Coeff.readFraction
  rw [readWord_toString c.fits.1, ← toList_toString_natCast, readWord_toString c.fits.2]
  simp only [if_neg hne, Coeff.quotient, hp, hq, hval, Coeff.ofRat?_val,
    Option.orElse_eq_orElse, Option.orElse_some]

/-- The text of an integer is a decimal without a fraction. -/
lemma Decimal.read?_toString (z : ℤ) :
    Decimal.read? (toString z).toList =
      some ⟨decide (z < 0), Nat.toDigits 10 z.natAbs, [], 0⟩ := by
  have hexponent : ∀ d ∈ (toString z).toList, (d == 'e' || d == 'E') = false := by
    intro d hd
    rcases isDigit_or_minus hd with hdigit | rfl
    · have hlower : d ≠ 'e' := ne_of_isDigit hdigit (by decide)
      have hupper : d ≠ 'E' := ne_of_isDigit hdigit (by decide)
      simp [hlower, hupper]
    · decide
  have hpoint : splitFirst (· == '.') (Nat.toDigits 10 z.natAbs) = none :=
    splitFirst_eq_none fun d hd =>
      beq_eq_false_iff_ne.2 (ne_of_isDigit (isDigit_of_mem hd) (by decide))
  have hall : (Nat.toDigits 10 z.natAbs).all Char.isDigit = true :=
    List.all_eq_true.2 fun _ => isDigit_of_mem
  have hempty : (Nat.toDigits 10 z.natAbs).isEmpty = false := by
    rw [List.isEmpty_eq_false_iff]
    exact Nat.toDigits_ne_nil
  unfold Decimal.read?
  rw [splitFirst_eq_none hexponent, toList_toString_int, signOf]
  show Decimal.readMantissa? 0 _ = _
  unfold Decimal.readMantissa?
  -- the sign is taken off first, and without one the first digit must not be taken for it
  by_cases hz : z < 0
  · simp only [if_pos hz, List.singleton_append, hpoint, Option.getD_none, List.append_nil, hall,
      hempty, Bool.not_true, Bool.or_self, Bool.false_eq_true, if_false, decide_eq_true hz]
  · obtain ⟨c, cs, hdigits, hc⟩ := exists_toDigits_eq_cons z.natAbs
    have hplus : c ≠ '+' := ne_of_isDigit hc (by decide)
    have hminus : c ≠ '-' := ne_of_isDigit hc (by decide)
    rw [hdigits] at hpoint hall hempty
    rw [if_neg hz, List.nil_append, hdigits]
    split
    rename_i negative body hbody
    split at hbody
    case h_1 heq => exact absurd (List.cons.inj heq).1 hminus
    case h_2 heq => exact absurd (List.cons.inj heq).1 hplus
    case h_3 =>
      cases hbody
      simp only [hpoint, Option.getD_none, List.append_nil, hall, hempty, Bool.not_true,
        Bool.or_self, Bool.false_eq_true, if_false, decide_eq_false hz]

/-- A decimal without a fraction and a power of ten is the coefficient of its digits. -/
lemma Decimal.toCoeff_of_integer (h : c.val.den = 1)
    (hleast : c.val.num ≠ -9223372036854775808) {d : Decimal} (hfraction : d.fraction = [])
    (hexponent : d.exponent = 0) (hdigits : d.digits = c.val.num.natAbs)
    (hsigned : d.signed = c.val.num) : d.toCoeff = .ok c := by
  have hval : (c.val.num : ℚ) = c.val := (Rat.den_eq_one_iff _).1 h
  have hfits : FitsWord c.val.num := c.fits.1
  have hsmall : d.digits < 9223372036854775808 := by
    unfold FitsWord at hfits
    omega
  have hcountable : d.countable = true := by
    rw [Decimal.countable, hfraction, decide_eq_true hsmall]
    rfl
  have hscale : d.wordScale.toInt = 0 := by
    rw [Decimal.wordScale, hexponent, hfraction]
    rfl
  have hvalue : d.wordValue = c.val := by
    rw [Decimal.wordValue, hscale, zpow_zero, mul_one, hsigned, hval]
  unfold Decimal.toCoeff
  rw [hcountable, Bool.not_true, if_neg Bool.false_ne_true]
  by_cases hzero : d.digits = 0
  · have hnum : c.val.num = 0 := by omega
    have heq : c = 0 := by
      apply Coeff.ext
      rw [← hval, hnum, Int.cast_zero, Coeff.val_zero]
    rw [if_pos hzero, heq]
  · have hplaces : ¬18 < d.wordScale.toInt.natAbs := by
      rw [hscale]
      decide
    rw [if_neg hzero, if_neg hplaces, hvalue, Coeff.ofRat?_val]

/-- The text of an integer is read as a decimal without a fraction. -/
lemma Coeff.readDecimal_toString (z : ℤ) : Coeff.readDecimal (toString z).toList =
    (Decimal.mk (decide (z < 0)) (Nat.toDigits 10 z.natAbs) [] 0).toCoeff := by
  unfold Coeff.readDecimal
  rw [Decimal.read?_toString]
  rfl

/-- An integer is read as a decimal as it was written, unless it is the least one. -/
lemma Coeff.readDecimal_toText (h : c.val.den = 1) (hleast : c.val.num ≠ -9223372036854775808) :
    Coeff.readDecimal (toString c.val.num).toList = .ok c := by
  rw [Coeff.readDecimal_toString]
  refine Decimal.toCoeff_of_integer h hleast rfl rfl ?_ ?_
  · rw [Decimal.digits, List.append_nil, valueOf_toDigits]
  · rw [Decimal.signed, Decimal.digits, List.append_nil, valueOf_toDigits]
    exact withSign_natAbs _

/-- **A coefficient is read as it was written**, unless it is the least integer. -/
lemma Coeff.read_toText (hleast : c.val ≠ -9223372036854775808) :
    Coeff.read c.toText.toList = .ok c := by
  have hnum : ∀ d ∈ (toString c.val.num).toList, (d == '/') = false := by
    intro d hd
    rcases isDigit_or_minus hd with hdigit | rfl
    · exact beq_eq_false_iff_ne.2 (ne_of_isDigit hdigit (by decide))
    · decide
  unfold Coeff.read
  by_cases hden : c.val.den = 1
  · have hne : c.val.num ≠ -9223372036854775808 := by
      intro h
      apply hleast
      rw [← Rat.num_div_den c.val, h, hden]
      norm_num
    rw [Coeff.toText_of_den_eq_one hden, splitFirst_eq_none hnum]
    exact Coeff.readDecimal_toText hden hne
  · rw [Coeff.toText_of_den_ne_one hden, splitFirst_append hnum (by decide)]
    exact Coeff.readFraction_toText c

end LinearInterchange
