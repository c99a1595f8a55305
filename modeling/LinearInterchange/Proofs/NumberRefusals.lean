import LinearInterchange.Format.Exchange.Reader
import LinearInterchange.Format.Lp.Statement
import LinearInterchange.Format.Mps.Reader
import LinearInterchange.Proofs.NumeralReading

/-!
# Numbers that are refused

Every token that is taken as a number denotes one, a zero in a denominator apart.  A token that is
not read all the same is refused for one of two reasons.  Its number, or the digits from which it is
computed, may be out of range, which is reported as not supported.  But a part of the token may also
leave the width in which this part is read: the numerator or the denominator of a fraction that is
no word, or an exponent that has more than 32 bits (`HasWidePart`).  Such a token is refused as if
it were no number at all, and reported as malformed, however small its number is.  Both reasons are
told exactly here, and so are the tokens that are read.

A third thing can happen to a decimal: the length of its fraction, taken from its exponent, can
leave the 32 bits in which this is computed.  A build that checks its arithmetic stops there, and
another one goes on with a power of ten that is too large.
-/

namespace LinearInterchange

open Text Parser

/-! ## Parts that are too wide -/

/-- A part of the numeral leaves the width in which it is read: the numerator or the denominator of
a fraction is no word, or the exponent of a decimal is no 32-bit word. -/
inductive HasWidePart : List Char → Prop
  | fraction {p q : List Char} {m n : ℤ} (hp : IntegerText p m) (hq : IntegerText q n)
      (h : ¬(FitsWord m ∧ FitsWord n)) : HasWidePart (p ++ '/' :: q)
  | decimal {s w e : List Char} {u k : ℤ} {x : ℚ} (hsign : SignText s u) (hw : Mantissa w x)
      (he : PowerText e k) (hk : ¬IntegerRange.half.Holds k) : HasWidePart (s ++ (w ++ e))

/-- The exponent of a decimal is the one that is written. -/
lemma PowerText.exists_read? {s w e : List Char} {u k : ℤ} {x : ℚ} (hsign : SignText s u)
    (hw : Mantissa w x) (he : PowerText e k) :
    ∃ d, Decimal.read? (s ++ (w ++ e)) = some d ∧ d.exponent = k := by
  obtain ⟨d, hd, -⟩ := mantissa_iff_ofBody?.1 hw
  refine ⟨d, ?_, ?_⟩
  · rw [← List.append_assoc, he.read?_append (hw.no_letter hsign),
      hsign.readMantissa?_append fun _ => hw.stops_sign, hd]
  · obtain ⟨whole, fraction, -, -, rfl⟩ := Decimal.ofBody?_eq_some_iff.1 hd
    rfl

/-- A fraction has a wide part if one of its numbers is no word. -/
lemma hasWidePart_iff_of_slash {cs p q : List Char}
    (h : splitFirst (· == '/') cs = some (p, q)) :
    HasWidePart cs ↔
      ∃ m n : ℤ, IntegerText p m ∧ IntegerText q n ∧ ¬(FitsWord m ∧ FitsWord n) := by
  constructor
  · intro hwide
    cases hwide with
    | fraction hp hq hwide =>
      rw [hp.splitFirst_append] at h
      obtain ⟨rfl, rfl⟩ := Prod.mk.inj (Option.some.inj h)
      exact ⟨_, _, hp, hq, hwide⟩
    | decimal hsign hw he hk =>
      rw [splitFirst_eq_none (DecimalText.intro hsign hw he).no_slash] at h
      cases h
  · rintro ⟨m, n, hp, hq, hwide⟩
    rw [eq_append_of_slash h]
    exact .fraction hp hq hwide

/-- A decimal has a wide part if its exponent is no 32-bit word. -/
lemma hasWidePart_iff_of_no_slash {cs : List Char} (h : splitFirst (· == '/') cs = none) :
    HasWidePart cs ↔
      ∃ d, Decimal.read? cs = some d ∧ ¬IntegerRange.half.Holds d.exponent := by
  constructor
  · intro hwide
    cases hwide with
    | fraction hp hq hwide =>
      rw [hp.splitFirst_append] at h
      cases h
    | decimal hsign hw he hk =>
      obtain ⟨d, hd, rfl⟩ := he.exists_read? hsign hw
      exact ⟨d, hd, hk⟩
  · rintro ⟨d, hd, hk⟩
    obtain ⟨x, hx⟩ : ∃ x, DecimalText cs x := ⟨_, decimalText_iff.2 ⟨d, hd, rfl⟩⟩
    obtain ⟨hsign, hw, he⟩ := hx
    obtain ⟨d', hd', rfl⟩ := he.exists_read? hsign hw
    obtain rfl := Option.some.inj (hd.symm.trans hd')
    exact .decimal hsign hw he hk

/-- Where the arithmetic for a token overflows, its parts have been read. -/
lemma HasWidePart.overflows_eq_false {cs : List Char} (h : HasWidePart cs) :
    Coeff.overflows cs = false := by
  cases hsplit : splitFirst (· == '/') cs with
  | none =>
    obtain ⟨d, hd, hk⟩ := (hasWidePart_iff_of_no_slash hsplit).1 h
    have hlong : d.hasShortExponent = false :=
      Bool.not_eq_true _ ▸ Decimal.hasShortExponent_iff.not.2 hk
    rw [Coeff.overflows_of_no_slash hsplit hd, hlong, Bool.false_and]
  | some parts =>
    obtain ⟨p, q⟩ := parts
    obtain ⟨m, n, hp, hq, hwide⟩ := (hasWidePart_iff_of_slash hsplit).1 h
    rw [Coeff.overflows_of_slash hsplit]
    exact Bool.not_eq_true _ ▸ (Coeff.fractionOverflows_iff hp hq).not.2 fun hfits => hwide hfits.1

/-! ## How tokens are read -/

/-- A decimal whose exponent is read is a number. -/
lemma Decimal.toCoeff_ne_invalid (d : Decimal) : d.toCoeff ≠ .error .invalid := by
  unfold Decimal.toCoeff
  split
  · nofun
  split
  · nofun
  split
  · nofun
  split <;> nofun

/-- A quotient of words is a number. -/
lemma Coeff.quotient_ne_invalid (p q : Int64) : Coeff.quotient p q ≠ .error .invalid := by
  unfold Coeff.quotient
  split <;> nofun

/-- A fraction is refused as no number unless both numbers are words and the second one is not zero.
-/
lemma Coeff.readFraction_eq_invalid_iff {p q : List Char} :
    Coeff.readFraction p q = .error .invalid ↔ ∀ m n : ℤ, IntegerText p m → IntegerText q n →
      FitsWord m → FitsWord n → n = 0 := by
  unfold Coeff.readFraction
  split
  next v w hv hw =>
    rw [readWord_eq_ok_iff] at hv hw
    split
    next hzero =>
      refine iff_of_true rfl fun m n _ hq _ _ => ?_
      rw [hq.unique hw, hzero]
      rfl
    next hne =>
      refine iff_of_false (Coeff.quotient_ne_invalid v w) fun h => hne (Int64.toInt_inj.1 ?_)
      exact h _ _ hv hw (fitsWord_toInt v) (fitsWord_toInt w)
  next hne =>
    refine iff_of_true rfl fun m n hp hq hm hn => ?_
    obtain ⟨v, -, hv⟩ := hp.exists_word hm
    obtain ⟨w, -, hw⟩ := hq.exists_word hn
    exact (hne v w hv hw).elim

/-- A decimal is refused as no number unless it is one, with an exponent of 32 bits. -/
lemma Coeff.readDecimal_eq_invalid_iff {cs : List Char} :
    Coeff.readDecimal cs = .error .invalid ↔
      ∀ d, Decimal.read? cs = some d → ¬IntegerRange.half.Holds d.exponent := by
  cases hd : Decimal.read? cs with
  | none =>
    unfold Coeff.readDecimal
    rw [hd]
    exact iff_of_true rfl nofun
  | some d =>
    simp only [Coeff.readDecimal_of_read? hd, Option.some.injEq, forall_eq']
    split
    next hk => exact iff_of_false d.toCoeff_ne_invalid (not_not.2 hk)
    next hk => exact iff_of_true rfl hk

/-- **A text is refused as no number exactly if it is none or has a part that is too wide.** -/
lemma Coeff.read_eq_invalid_iff {cs : List Char} :
    Coeff.read cs = .error .invalid ↔ (∀ x, ¬Numeral cs x) ∨ HasWidePart cs := by
  -- a slash decides which reader it is, and with it which parts there are
  cases hsplit : splitFirst (· == '/') cs with
  | none =>
    have hread : Coeff.read cs = Coeff.readDecimal cs := by rw [Coeff.read, hsplit]
    rw [hread, Coeff.readDecimal_eq_invalid_iff, hasWidePart_iff_of_no_slash hsplit]
    simp only [numeral_iff_of_no_slash hsplit]
    cases hd : Decimal.read? cs with
    | none => simp
    | some d => simp
  | some parts =>
    obtain ⟨p, q⟩ := parts
    have hread : Coeff.read cs = Coeff.readFraction p q := by rw [Coeff.read, hsplit]
    rw [hread, Coeff.readFraction_eq_invalid_iff, hasWidePart_iff_of_slash hsplit]
    simp only [numeral_iff_of_slash hsplit]
    constructor
    · intro h
      refine or_iff_not_imp_right.2 fun hwide x hx => ?_
      obtain ⟨m, n, hp, hq, hne, -⟩ := hx
      obtain ⟨hm, hn⟩ : FitsWord m ∧ FitsWord n := by
        by_contra hout
        exact hwide ⟨m, n, hp, hq, hout⟩
      exact hne (h m n hp hq hm hn)
    · intro h m n hp hq hm hn
      rcases h with h | ⟨m', n', hp', hq', hwide⟩
      · by_contra hne
        exact h _ ⟨m, n, hp, hq, hne, rfl⟩
      · rw [hp'.unique hp, hq'.unique hq] at hwide
        exact absurd ⟨hm, hn⟩ hwide

/-- **A numeral is read exactly if it has no part that is too wide, its digits are few enough and
what is computed for its number is a coefficient.**  The digits only matter in a decimal. -/
lemma Coeff.read_eq_ok_iff {cs : List Char} {c : Coeff} {x : ℚ} (hx : Numeral cs x) :
    Coeff.read cs = .ok c ↔ c.val = Coeff.computed cs x ∧ ¬HasWidePart cs ∧
      ∀ d, Decimal.read? cs = some d → d.IsShort := by
  cases hsplit : splitFirst (· == '/') cs with
  | none =>
    have hread : Coeff.read cs = Coeff.readDecimal cs := by rw [Coeff.read, hsplit]
    obtain ⟨d, hd, rfl⟩ := (numeral_iff_of_no_slash hsplit).1 hx
    rw [hread, Coeff.readDecimal_eq_ok_iff, hasWidePart_iff_of_no_slash hsplit]
    simp only [hd, Option.some.injEq, exists_eq_left', forall_eq', not_not]
    -- what is computed is only told for a decimal whose parts are read
    have hcomputed (hk : IntegerRange.half.Holds d.exponent) (hshort : d.IsShort) :
        Coeff.computed cs d.value = d.wordValue :=
      Coeff.computed_of_read? hd hk
        (Decimal.countable_iff.2 ⟨hshort.digits_lt, hshort.length_le⟩)
    constructor
    · rintro ⟨hk, hshort, hval⟩
      exact ⟨hval.trans (hcomputed hk hshort).symm, hk, hshort⟩
    · rintro ⟨hval, hk, hshort⟩
      exact ⟨hk, hshort, hval.trans (hcomputed hk hshort)⟩
  | some parts =>
    obtain ⟨p, q⟩ := parts
    have hread : Coeff.read cs = Coeff.readFraction p q := by rw [Coeff.read, hsplit]
    -- a text with a slash is no decimal, so there are no digits to count
    have hnone : ∀ d, Decimal.read? cs = some d → d.IsShort := by
      intro d hd
      have hslash := splitFirst_eq_none (decimalText_iff.2 ⟨d, hd, rfl⟩).no_slash
      rw [hsplit] at hslash
      cases hslash
    obtain ⟨m, n, hp, hq, hne, rfl⟩ := (numeral_iff_of_slash hsplit).1 hx
    rw [hread, Coeff.readFraction_eq_ok_iff, hasWidePart_iff_of_slash hsplit, and_iff_left hnone,
      Coeff.computed_of_slash hsplit]
    constructor
    · rintro ⟨m', n', hp', hq', hfits, -, hval⟩
      obtain rfl := hp.unique hp'
      obtain rfl := hq.unique hq'
      refine ⟨hval, ?_⟩
      rintro ⟨m', n', hp', hq', hwide⟩
      rw [hp'.unique hp, hq'.unique hq] at hwide
      exact hwide hfits
    · rintro ⟨hval, hwide⟩
      refine ⟨m, n, hp, hq, ?_, hne, hval⟩
      by_contra hout
      exact hwide ⟨m, n, hp, hq, hout⟩

/-! ## Tokens as readers report them -/

/-- A token that is taken as a number denotes one unless it has a zero as its denominator. -/
lemma exists_numeral_of_token {text cs rest : List Char}
    (htoken : decimalToken text = some (cs, rest) ∨ fractionToken text = some (cs, rest))
    (hdenominator : ∀ p q, cs = p ++ '/' :: q → ¬IntegerText q 0) : ∃ x, Numeral cs x := by
  rcases htoken with h | h
  · obtain ⟨-, x, hx⟩ := decimalText_of_decimalToken h
    exact ⟨x, .decimal hx⟩
  · obtain ⟨-, ⟨m, hm⟩ | ⟨p, q, m, rfl, hp, hq⟩⟩ := integer_or_fraction_of_fractionToken h
    · exact ⟨_, .decimal hm.decimalText⟩
    · have hdenotes := IntegerText.intro .none hq
      refine ⟨_, .fraction hp hdenotes fun hzero => hdenominator p q rfl ?_⟩
      rwa [hzero] at hdenotes

/-- An overflow in the arithmetic for a token is that of the power of ten of a decimal: the
denominator of a fraction has no sign that would have to be moved. -/
lemma exists_decimal_of_overflows {text cs rest : List Char}
    (htoken : decimalToken text = some (cs, rest) ∨ fractionToken text = some (cs, rest))
    (h : Coeff.overflows cs = true) :
    '/' ∉ cs ∧ ∃ d, Decimal.read? cs = some d ∧ d.exponent - d.fraction.length < -2147483648 := by
  have hdecimal {x : ℚ} (hx : DecimalText cs x) :
      '/' ∉ cs ∧ ∃ d, Decimal.read? cs = some d ∧ d.exponent - d.fraction.length < -2147483648 := by
    obtain ⟨d, hd, -⟩ := decimalText_iff.1 hx
    rw [Coeff.overflows_of_no_slash (splitFirst_eq_none hx.no_slash) hd, Bool.and_eq_true] at h
    exact ⟨fun hmem => absurd (hx.no_slash _ hmem) (by decide), d, hd,
      (Decimal.overflows_iff.1 h.2).2⟩
  rcases htoken with htoken | htoken
  · obtain ⟨-, x, hx⟩ := decimalText_of_decimalToken htoken
    exact hdecimal hx
  · obtain ⟨-, ⟨m, hm⟩ | ⟨p, q, m, rfl, hp, hq⟩⟩ := integer_or_fraction_of_fractionToken htoken
    · exact hdecimal hm.decimalText
    · rw [Coeff.overflows_of_slash hp.splitFirst_append] at h
      have hdenotes : IntegerText q (1 * Nat.ofDigitChars 10 q 0) := .intro .none hq
      rcases eq_or_ne (Nat.ofDigitChars 10 q 0) 0 with hzero | hne
      · exact absurd (by omega) ((Coeff.fractionOverflows_iff hp hdenotes).1 h).2.1
      · have hnone := Coeff.fractionOverflows_eq_false hp hdenotes (.inl (by omega))
        rw [hnone] at h
        cases h

/-- Reads the coefficient of a token at a place in a build, and refuses the token there if it is not
read. There is no answer if the build stops. -/
def Coeff.readAt (b : Build) (pos : Position) (cs : List Char) :
    Option (Except ReadError Coeff) :=
  (Coeff.readIn b cs).map (pos.report (NumberFault.refusal cs))

/-- Numbers of sums and bounds are read in this way. -/
lemma Lp.readCoeff_eq (pos : Position) (cs : List Char) :
    some (Lp.readCoeff pos cs) = Coeff.readAt .unchecked pos cs :=
  rfl

/-- Numbers of columns are read in this way. -/
lemma Mps.report_readCoeff (pos : Position) (cs : List Char) :
    some (pos.report Mps.Fault.refusal (Mps.readCoeff cs)) = Coeff.readAt .unchecked pos cs := by
  show _ = some (pos.report _ (Coeff.read cs))
  unfold Mps.readCoeff
  cases Coeff.read cs <;> rfl

/-- Numbers of the exchange format are read in this way. -/
lemma Exchange.report_readCoeff (pos : Position) (cs : List Char) :
    some (pos.report Exchange.Fault.refusal (Exchange.readCoeff cs)) =
      Coeff.readAt .unchecked pos cs := by
  show _ = some (pos.report _ (Coeff.read cs))
  unfold Exchange.readCoeff
  cases Coeff.read cs <;> rfl

/-- A build that does not stop reports what it reads. -/
lemma Coeff.readAt_of_read {b : Build} {cs : List Char} {r : Except NumberFault Coeff}
    (hbuild : b = .checked → ¬Coeff.overflows cs = true) (h : Coeff.read cs = r)
    (pos : Position) : Coeff.readAt b pos cs = some (pos.report (NumberFault.refusal cs) r) := by
  rw [Coeff.readAt, Coeff.readIn_eq_some_iff.2 ⟨hbuild, h⟩, Option.map_some]

/-- **Tokens are malformed exactly if they have a part that is too wide.**  Every token that is
taken as a number, without a zero as its denominator, denotes a number.  If it has a part that is
too wide, it is reported as malformed.  Otherwise it is read, or reported as out of range: it is
read just if what is computed for it is a coefficient and, in a decimal, the digits from which it is
computed are few enough.  What is computed is the number itself, except where the length of a
fraction, taken from the exponent, leaves 32 bits: there a checked build stops, and an unchecked one
computes with a power of ten that is too large by `2 ^ 32`. -/
theorem Coeff.readAt_token (b : Build) {text cs rest : List Char}
    (htoken : decimalToken text = some (cs, rest) ∨ fractionToken text = some (cs, rest))
    (hdenominator : ∀ p q, cs = p ++ '/' :: q → ¬IntegerText q 0) (pos : Position) :
    ∃ x y, Numeral cs x ∧
      (Coeff.overflows cs = false → y = x) ∧
      (Coeff.overflows cs = true → y = x * 10 ^ (4294967296 : ℤ) ∧
        ∃ d, Decimal.read? cs = some d ∧ d.exponent - d.fraction.length < -2147483648) ∧
      (HasWidePart cs → Coeff.readAt b pos cs = some (.error
        (.refused pos (.malformed ("invalid number `" ++ String.ofList cs ++ "`"))))) ∧
      (b = .checked → Coeff.overflows cs = true → Coeff.readAt b pos cs = none) ∧
      (¬HasWidePart cs → (b = .checked → ¬Coeff.overflows cs = true) →
        FitsCoeff y → (∀ d, Decimal.read? cs = some d → d.IsShort) →
          ∃ c, c.val = y ∧ Coeff.readAt b pos cs = some (.ok c)) ∧
      (¬HasWidePart cs → (b = .checked → ¬Coeff.overflows cs = true) →
        ¬(FitsCoeff y ∧ ∀ d, Decimal.read? cs = some d → d.IsShort) →
          Coeff.readAt b pos cs = some (.error (.refused pos
            (.unsupported ("number `" ++ String.ofList cs ++ "` out of range"))))) := by
  obtain ⟨x, hx⟩ := exists_numeral_of_token htoken hdenominator
  refine ⟨x, Coeff.computed cs x, hx, fun hnone => if_pos hnone, fun hoverflows => ?_,
    fun hwide => ?_, fun hbuild hoverflows => ?_, fun hwide hbuild hfits hshort => ?_,
    fun hwide hbuild hlarge => ?_⟩
  · obtain ⟨hslash, hdecimal⟩ := exists_decimal_of_overflows htoken hoverflows
    refine ⟨?_, hdecimal⟩
    rw [Coeff.computed, hoverflows, if_neg Bool.true_eq_false_eq_False, if_neg hslash]
  · have hbuild : b = .checked → ¬Coeff.overflows cs = true :=
      fun _ => Bool.not_eq_true _ ▸ hwide.overflows_eq_false
    rw [Coeff.readAt_of_read hbuild (Coeff.read_eq_invalid_iff.2 (.inr hwide))]
    rfl
  · rw [Coeff.readAt, Coeff.readIn, if_pos ⟨hbuild, hoverflows⟩, Option.map_none]
  · have hread := (Coeff.read_eq_ok_iff (c := ⟨_, hfits⟩) hx).2 ⟨rfl, hwide, hshort⟩
    exact ⟨⟨_, hfits⟩, rfl, Coeff.readAt_of_read hbuild hread pos⟩
  -- the token is a numeral, so of the two faults only the range is left
  · have hread : Coeff.read cs = .error .outOfRange := by
      cases hread : Coeff.read cs with
      | ok c =>
        obtain ⟨hval, -, hshort⟩ := (Coeff.read_eq_ok_iff hx).1 hread
        exact absurd ⟨hval ▸ c.fits, hshort⟩ hlarge
      | error fault =>
        cases fault with
        | invalid =>
          rcases Coeff.read_eq_invalid_iff.1 hread with hnone | h
          · exact absurd hx (hnone x)
          · exact absurd h hwide
        | outOfRange => rfl
    rw [Coeff.readAt_of_read hbuild hread]
    rfl

/-- A fraction at the beginning of a line is taken and read in lowest terms. -/
theorem Coeff.readAt_token_fraction :
    fractionToken "-6/4 <= 1".toList = some ("-6/4".toList, " <= 1".toList) ∧
      ∃ c, c.val = -3 / 2 ∧ Coeff.readAt .checked ⟨0, 1⟩ "-6/4".toList = some (.ok c) := by
  have htoken : fractionToken "-6/4 <= 1".toList = some ("-6/4".toList, " <= 1".toList) := by
    decide +kernel
  have hp : IntegerText ['-', '6'] (-1 * (6 : ℕ)) :=
    .intro .minus ⟨List.cons_ne_nil _ _, List.forall_mem_singleton.2 rfl⟩
  have hq : IntegerText ['4'] (1 * (4 : ℕ)) :=
    .intro .none ⟨List.cons_ne_nil _ _, List.forall_mem_singleton.2 rfl⟩
  have hdenominator : ∀ p q, "-6/4".toList = p ++ '/' :: q → ¬IntegerText q 0 := by
    intro p q hpq hzero
    have hsplit : ['-', '6'] ++ '/' :: ['4'] = p ++ '/' :: q := hpq
    have hparts := (List.append_cons_inj_of_notMem (by decide) (by decide)).1 hsplit
    rw [← hparts.2.2] at hzero
    exact absurd (hq.unique hzero) (by decide)
  have hwide : ¬HasWidePart "-6/4".toList := by
    rw [hasWidePart_iff_of_slash (p := ['-', '6']) (q := ['4']) (by decide +kernel)]
    rintro ⟨m, n, hm, hn, hwide⟩
    rw [← hp.unique hm, ← hq.unique hn] at hwide
    exact hwide (by decide)
  have hnone : Coeff.overflows "-6/4".toList = false := by decide +kernel
  obtain ⟨x, y, hx, hy, -, -, -, hread, -⟩ :=
    Coeff.readAt_token .checked (.inr htoken) hdenominator ⟨0, 1⟩
  have hvalue : y = -3 / 2 := by
    rw [hy hnone, hx.unique (.fraction hp hq (by decide))]
    norm_num
  have hdecimal : Decimal.read? "-6/4".toList = none := by decide +kernel
  rw [hvalue] at hread
  refine ⟨htoken, hread hwide (fun _ => by rw [hnone]; decide) (by decide +kernel) fun d hd => ?_⟩
  rw [hdecimal] at hd
  cases hd

/-- A fraction of a number beyond the words and a power of ten with an exponent beyond 32 bits are
taken whole as numbers, and are refused as if they were none. -/
theorem Coeff.read_wide_parts :
    fractionToken "9223372036854775808/3".toList = some ("9223372036854775808/3".toList, []) ∧
      Coeff.read "9223372036854775808/3".toList = .error .invalid ∧
      decimalToken "1e2147483648".toList = some ("1e2147483648".toList, []) ∧
      Coeff.read "1e2147483648".toList = .error .invalid := by
  decide +kernel

end LinearInterchange
