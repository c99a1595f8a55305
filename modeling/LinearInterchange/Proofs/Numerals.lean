import LinearInterchange.Proofs.NumberText
import LinearInterchange.Proofs.Outcome
import LinearInterchange.Proofs.ParserRelations
import Mathlib.Algebra.Order.Field.Power
import Mathlib.Tactic.FieldSimp
import Mathlib.Tactic.Ring

/-!
# Numerals

What a number token says is told here apart from how it is read.  A fraction is two integers with a
slash between them; a decimal is digits around an optional point, with a sign before them and a
power of ten after them.  What the readers take as a number is of one of these shapes, and it
denotes one number (`Numeral.unique`).  The magnitude of a decimal is compared exactly, also where
its power of ten is too large to be computed.
-/

namespace LinearInterchange

open Text Parser

/-! ## The numbers that texts denote -/

/-- A sign as it is written, with the factor that it stands for. -/
inductive SignText : List Char → ℤ → Prop
  | none : SignText [] 1
  | plus : SignText ['+'] 1
  | minus : SignText ['-'] (-1)

/-- The text is a run of decimal digits. -/
structure IsDigits (cs : List Char) : Prop where
  ne_nil : cs ≠ []
  digits : ∀ c ∈ cs, c.isDigit = true

/-- The text is digits with an optional sign in front, and denotes the integer. -/
inductive IntegerText : List Char → ℤ → Prop
  | intro {s ds : List Char} {u : ℤ} (hsign : SignText s u) (hds : IsDigits ds) :
      IntegerText (s ++ ds) (u * Nat.ofDigitChars 10 ds 0)

/-- The text is digits with at most one point among them, and denotes the number.  The digits after
a point count by their distance from it. -/
inductive Mantissa : List Char → ℚ → Prop
  | whole {ds : List Char} (hds : IsDigits ds) : Mantissa ds (Nat.ofDigitChars 10 ds 0)
  | pointed {ds fs : List Char} (hds : IsDigits ds) (hfs : ∀ c ∈ fs, c.isDigit = true) :
      Mantissa (ds ++ '.' :: fs)
        (Nat.ofDigitChars 10 ds 0 + Nat.ofDigitChars 10 fs 0 / 10 ^ fs.length)
  | fraction {fs : List Char} (hfs : IsDigits fs) :
      Mantissa ('.' :: fs) (Nat.ofDigitChars 10 fs 0 / 10 ^ fs.length)

/-- The text is empty, or it gives a power of ten by its exponent. -/
inductive PowerText : List Char → ℤ → Prop
  | none : PowerText [] 0
  | lower {cs : List Char} {k : ℤ} (h : IntegerText cs k) : PowerText ('e' :: cs) k
  | upper {cs : List Char} {k : ℤ} (h : IntegerText cs k) : PowerText ('E' :: cs) k

/-- The text is a mantissa between an optional sign and an optional power of ten, and denotes the
number. -/
inductive DecimalText : List Char → ℚ → Prop
  | intro {s w e : List Char} {u k : ℤ} {x : ℚ} (hsign : SignText s u) (hw : Mantissa w x)
      (he : PowerText e k) : DecimalText (s ++ (w ++ e)) (u * x * 10 ^ k)

/-- The text denotes the number, as a fraction of integers or as a decimal. -/
inductive Numeral : List Char → ℚ → Prop
  | fraction {p q : List Char} {m n : ℤ} (hp : IntegerText p m) (hq : IntegerText q n)
      (hn : n ≠ 0) : Numeral (p ++ '/' :: q) (m / n)
  | decimal {cs : List Char} {x : ℚ} (h : DecimalText cs x) : Numeral cs x

/-! ## Characters of numerals -/

/-- A sign is a plus or a minus. -/
lemma SignText.mem {s : List Char} {u : ℤ} (h : SignText s u) {c : Char} (hc : c ∈ s) :
    c = '+' ∨ c = '-' := by
  cases h with
  | none => exact absurd hc List.not_mem_nil
  | plus => exact .inl (List.mem_singleton.1 hc)
  | minus => exact .inr (List.mem_singleton.1 hc)

/-- An integer is made of digits and signs. -/
lemma IntegerText.mem {cs : List Char} {k : ℤ} (h : IntegerText cs k) {c : Char} (hc : c ∈ cs) :
    c.isDigit = true ∨ c = '+' ∨ c = '-' := by
  obtain ⟨hsign, hds⟩ := h
  rcases List.mem_append.1 hc with hc | hc
  · exact .inr (hsign.mem hc)
  · exact .inl (hds.digits c hc)

/-- A mantissa is made of digits and points. -/
lemma Mantissa.mem {w : List Char} {x : ℚ} (h : Mantissa w x) {c : Char} (hc : c ∈ w) :
    c.isDigit = true ∨ c = '.' := by
  cases h with
  | whole hds => exact .inl (hds.digits c hc)
  | pointed hds hfs =>
    rcases List.mem_append.1 hc with hc | hc
    · exact .inl (hds.digits c hc)
    rcases List.mem_cons.1 hc with rfl | hc
    · exact .inr rfl
    · exact .inl (hfs c hc)
  | fraction hfs =>
    rcases List.mem_cons.1 hc with rfl | hc
    · exact .inr rfl
    · exact .inl (hfs.digits c hc)

/-- A power of ten is made of digits, signs and its letter. -/
lemma PowerText.mem {e : List Char} {k : ℤ} (h : PowerText e k) {c : Char} (hc : c ∈ e) :
    c.isDigit = true ∨ c = '+' ∨ c = '-' ∨ c = 'e' ∨ c = 'E' := by
  cases h with
  | none => exact absurd hc List.not_mem_nil
  | lower h =>
    rcases List.mem_cons.1 hc with rfl | hc
    · exact .inr (.inr (.inr (.inl rfl)))
    · have := h.mem hc
      tauto
  | upper h =>
    rcases List.mem_cons.1 hc with rfl | hc
    · exact .inr (.inr (.inr (.inr rfl)))
    · have := h.mem hc
      tauto

/-! ## Signs -/

/-- A magnitude with a sign is the magnitude times the factor. -/
lemma SignText.withSign_eq {s : List Char} {u : ℤ} (h : SignText s u) (n : ℕ) :
    withSign (decide (u < 0)) n = u * n := by
  cases h <;> simp

/-- A mantissa does not begin with a sign. -/
lemma Mantissa.stops_sign {w : List Char} {x : ℚ} (h : Mantissa w x) :
    Stops (fun c => c == '+' || c == '-') w := by
  intro c hc
  rcases h.mem (List.mem_of_mem_head? hc) with hdigit | rfl
  · have hplus : c ≠ '+' := ne_of_isDigit hdigit (by decide)
    have hminus : c ≠ '-' := ne_of_isDigit hdigit (by decide)
    simp [hplus, hminus]
  · decide

lemma IsDigits.stops_sign {ds : List Char} (h : IsDigits ds) :
    Stops (fun c => c == '+' || c == '-') ds :=
  (Mantissa.whole h).stops_sign

/-- Every text is a sign, which may be empty, and a text after it. -/
lemma exists_signText (cs : List Char) : ∃ s u rest, cs = s ++ rest ∧ SignText s u ∧
    (s = [] → Stops (fun c => c == '+' || c == '-') rest) := by
  cases cs with
  | nil => exact ⟨[], 1, [], rfl, .none, fun _ => stops_nil _⟩
  | cons c rest =>
    by_cases hplus : c = '+'
    · subst hplus
      exact ⟨['+'], 1, rest, rfl, .plus, nofun⟩
    by_cases hminus : c = '-'
    · subst hminus
      exact ⟨['-'], -1, rest, rfl, .minus, nofun⟩
    exact ⟨[], 1, c :: rest, rfl, .none, fun _ => stops_cons (by simp [hplus, hminus])⟩

/-- A sign is read with what it stands for. -/
lemma SignText.sign_append {s rest : List Char} {u : ℤ} (h : SignText s u)
    (hrest : s = [] → Stops (fun c => c == '+' || c == '-') rest) :
    Parser.sign (s ++ rest) = some (decide (u < 0), rest) := by
  unfold Parser.sign
  cases h with
  | none =>
    have hnone := Parser.optional?_of_eq_none (Parser.satisfy_of_stops (hrest rfl))
    rw [List.nil_append, Parser.bind_of_eq_some hnone]
    rfl
  | plus =>
    rw [List.singleton_append,
      Parser.bind_of_eq_some (Parser.optional?_of_eq_some (Parser.satisfy_cons (by decide)))]
    rfl
  | minus =>
    rw [List.singleton_append,
      Parser.bind_of_eq_some (Parser.optional?_of_eq_some (Parser.satisfy_cons (by decide)))]
    rfl

/-! ## Integers -/

lemma valueOf_eq_ofDigitChars (ds : List Char) : Parser.valueOf ds = Nat.ofDigitChars 10 ds 0 := by
  rw [Nat.ofDigitChars_eq_foldl]
  rfl

/-- A number begins with a sign or a digit. -/
lemma word_of_stops {cs : List Char} (hsign : Stops (fun c => c == '+' || c == '-') cs)
    (hdigit : Stops Char.isDigit cs) : Parser.word cs = none := by
  have hread : Parser.sign cs = some (false, cs) := SignText.none.sign_append fun _ => hsign
  rw [Parser.word, Parser.bind_of_eq_some hread]
  exact Parser.bind_of_eq_none (Parser.run1_of_stops hdigit)

/-- An integer is read as a word up to the end of its digits. -/
lemma IntegerText.word_append {cs rest : List Char} {w : Int64} (h : IntegerText cs w.toInt)
    (hrest : Stops Char.isDigit rest) : Parser.word (cs ++ rest) = some (w, rest) := by
  generalize hw : w.toInt = z at h
  obtain @⟨s, ds, u, hsign, hds⟩ := h
  have hread : Parser.sign (s ++ (ds ++ rest)) = some (decide (u < 0), ds ++ rest) := by
    refine hsign.sign_append fun _ => ?_
    obtain ⟨d, ds, rfl⟩ := List.exists_cons_of_ne_nil hds.ne_nil
    exact stops_cons (hds.stops_sign d rfl)
  have hdigits : Parser.digits1 (ds ++ rest) = some (ds, rest) :=
    Parser.run1_append hds.digits hds.ne_nil hrest
  have hvalue := hsign.withSign_eq (Nat.ofDigitChars 10 ds 0)
  unfold withSign at hvalue
  rw [List.append_assoc, Parser.word, Parser.bind_of_eq_some hread,
    Parser.bind_of_eq_some hdigits, valueOf_eq_ofDigitChars, hvalue, ← hw, word?_toInt]
  rfl

/-- An integer does not begin with another character than a sign or a digit. -/
lemma IntegerText.stops {cs : List Char} {z : ℤ} (h : IntegerText cs z) {p : Char → Bool}
    (hp : ∀ c, c.isDigit = true ∨ c = '+' ∨ c = '-' → p c = false) (rest : List Char) :
    Stops p (cs ++ rest) := by
  have hne : cs ≠ [] := by
    obtain ⟨-, hds⟩ := h
    exact List.append_ne_nil_of_right_ne_nil _ hds.ne_nil
  obtain ⟨c, cs, rfl⟩ := List.exists_cons_of_ne_nil hne
  exact stops_cons (hp c (h.mem List.mem_cons_self))

/-- **An exponent is read exactly if it is an integer**, of whatever length. -/
lemma Decimal.readExponent?_eq_some_iff {cs : List Char} {k : ℤ} :
    Decimal.readExponent? cs = some k ↔ IntegerText cs k := by
  constructor
  · intro h
    obtain ⟨s, u, rest, rfl, hsign, hrest⟩ := exists_signText cs
    have hparse := Parser.eq_some_of_parseWhole? h
    rw [Parser.bind_of_eq_some (hsign.sign_append hrest)] at hparse
    obtain ⟨ds, rest₁, hds, hvalue⟩ := Parser.bind_eq_some hparse
    obtain ⟨hne, hdigits⟩ := Parser.Ensures.run1 Char.isDigit _ _ _ hds
    obtain ⟨rfl, rfl⟩ := Prod.mk.inj (Option.some.inj hvalue)
    have hrest : rest = ds := by
      have := Parser.eq_append_of_run1 hds
      rwa [List.append_nil] at this
    show IntegerText _ (withSign _ _)
    rw [hsign.withSign_eq, valueOf_eq_ofDigitChars, hrest]
    exact .intro hsign ⟨hne, hdigits⟩
  · rintro ⟨hsign, hds⟩
    rename_i s ds u
    have hrun : Parser.digits1 (ds ++ []) = some (ds, []) :=
      Parser.run1_append hds.digits hds.ne_nil (stops_nil _)
    rw [List.append_nil] at hrun
    refine Parser.parseWhole?_eq_some ?_
    rw [Parser.bind_of_eq_some (hsign.sign_append fun _ => hds.stops_sign),
      Parser.bind_of_eq_some hrun, ← hsign.withSign_eq, ← valueOf_eq_ofDigitChars]
    rfl

/-- A text denotes one integer at most. -/
lemma IntegerText.unique {cs : List Char} {m n : ℤ} (hm : IntegerText cs m)
    (hn : IntegerText cs n) : m = n := by
  rw [← Decimal.readExponent?_eq_some_iff] at hm hn
  exact Option.some.inj (hm.symm.trans hn)

/-- Digits that are appended are digits, and lead to the integer. -/
lemma eq_withSign_of_appendDigits {range : IntegerRange} {negative : Bool} {n : ℕ}
    {ds : List Char} {z : ℤ} (h : appendDigits range negative (withSign negative n) ds = .ok z) :
    (∀ c ∈ ds, c.isDigit = true) ∧ z = withSign negative (Nat.ofDigitChars 10 ds n) := by
  induction ds generalizing n with
  | nil => exact ⟨List.forall_mem_nil _, (Except.ok.inj h).symm⟩
  | cons c ds ih =>
    rw [appendDigits] at h
    split at h
    · cases h
    next d hd =>
      obtain ⟨hc, hd⟩ := Option.ite_none_right_eq_some.1 hd
      obtain rfl := Option.some.inj hd
      dsimp only at h
      rw [withSign_digit] at h
      split at h
      · cases h
      split at h
      · cases h
      obtain ⟨hds, hz⟩ := ih h
      rw [Nat.ofDigitChars_cons]
      exact ⟨List.forall_mem_cons.2 ⟨hc, hds⟩, hz⟩

/-- Digits are not appended beyond the range. -/
lemma mem_range_of_appendDigits {range : IntegerRange} {negative : Bool} {n z : ℤ}
    {ds : List Char} (h : appendDigits range negative n ds = .ok z)
    (hn : range.least ≤ n ∧ n ≤ range.greatest) : range.least ≤ z ∧ z ≤ range.greatest := by
  induction ds generalizing n with
  | nil => exact Except.ok.inj h ▸ hn
  | cons c ds ih =>
    rw [appendDigits] at h
    split at h
    · cases h
    next d _ =>
      dsimp only at h
      generalize (if negative then 10 * n - (d : ℤ) else 10 * n + d) = m at h
      split at h
      · cases h
      next hhigh =>
        split at h
        · cases h
        next hlow => exact ih h ⟨not_lt.1 hlow, not_lt.1 hhigh⟩

/-- **A text that is read as an integer denotes it.** -/
lemma integerText_of_readInteger {range : IntegerRange} {cs : List Char} {z : ℤ}
    (h : readInteger range cs = .ok z) : IntegerText cs z := by
  have hdigits : ∀ {s ds : List Char} {u : ℤ}, SignText s u → ds ≠ [] →
      appendDigits range (decide (u < 0)) 0 ds = .ok z → IntegerText (s ++ ds) z := by
    intro s ds u hsign hne happend
    have hzero : withSign (decide (u < 0)) 0 = 0 := by cases decide (u < 0) <;> rfl
    have hstart : appendDigits range (decide (u < 0)) (withSign (decide (u < 0)) 0) ds = .ok z := by
      rwa [hzero]
    obtain ⟨hds, rfl⟩ := eq_withSign_of_appendDigits hstart
    rw [hsign.withSign_eq]
    exact .intro hsign ⟨hne, hds⟩
  unfold readInteger at h
  split at h
  · cases h
  · cases h
  next ds hne => exact hdigits .plus hne h
  next ds =>
    split at h
    next hcond =>
      have hne : ds ≠ [] := by simpa using (Bool.and_eq_true_iff.1 hcond).2
      exact hdigits .minus hne h
    next => cases h
  next hne _ _ _ => exact hdigits .none hne h

/-- What is read as an integer of a range is in the range. -/
lemma mem_range_of_readInteger {range : IntegerRange} {cs : List Char} {z : ℤ}
    (h : readInteger range cs = .ok z) (hzero : range.least ≤ 0 ∧ 0 ≤ range.greatest) :
    range.least ≤ z ∧ z ≤ range.greatest := by
  unfold readInteger at h
  split at h
  · cases h
  · cases h
  next => exact mem_range_of_appendDigits h hzero
  next =>
    split at h
    · exact mem_range_of_appendDigits h hzero
    · cases h
  next => exact mem_range_of_appendDigits h hzero

/-- A text that is read as a word denotes it. -/
lemma integerText_of_readWord {cs : List Char} {w : Int64} (h : readWord cs = .ok w) :
    IntegerText cs w.toInt := by
  obtain ⟨z, hz, rfl⟩ := map_eq_ok.1 h
  have hfits : FitsWord z := mem_range_of_readInteger hz (by decide)
  rw [toInt_of_word? (if_pos hfits)]
  exact integerText_of_readInteger hz

/-! ## Decimals -/

/-- The magnitude of a decimal without its power of ten. -/
def Decimal.magnitude (d : Decimal) : ℚ :=
  d.digits / 10 ^ d.fraction.length

/-- A decimal is its magnitude with its sign and its power of ten. -/
lemma Decimal.value_eq {d : Decimal} {s : List Char} {u : ℤ} (hsign : SignText s u)
    (h : d.negative = decide (u < 0)) : d.value = u * d.magnitude * 10 ^ d.exponent := by
  have hsigned : d.signed = u * (d.digits : ℤ) := by
    rw [← hsign.withSign_eq, ← h]
    rfl
  have hten : (10 : ℚ) ≠ 0 := by norm_num
  rw [Decimal.value, hsigned, Decimal.scale, Decimal.magnitude, zpow_sub₀ hten, zpow_natCast]
  push_cast
  ring

/-- Digits behind a point count by their distance from it. -/
lemma ofDigitChars_append_div (ds fs : List Char) :
    (Nat.ofDigitChars 10 (ds ++ fs) 0 : ℚ) / 10 ^ fs.length =
      Nat.ofDigitChars 10 ds 0 + Nat.ofDigitChars 10 fs 0 / 10 ^ fs.length := by
  have hten : (10 : ℚ) ^ fs.length ≠ 0 := pow_ne_zero _ (by norm_num)
  rw [Nat.ofDigitChars_append, Nat.ofDigitChars_eq_ofDigitChars_zero]
  push_cast
  field_simp

/-- A mantissa is digits on both sides of its point, or of the place where it would be. -/
lemma mantissa_iff {body : List Char} {x : ℚ} : Mantissa body x ↔
    ∃ whole fraction, (splitFirst (· == '.') body).getD (body, []) = (whole, fraction) ∧
      IsDigits (whole ++ fraction) ∧
      x = Nat.ofDigitChars 10 (whole ++ fraction) 0 / 10 ^ fraction.length := by
  have hpoint : ∀ {ds : List Char}, (∀ c ∈ ds, c.isDigit = true) → ∀ c ∈ ds, (c == '.') = false :=
    fun hds c hc => beq_eq_false_iff_ne.2 (ne_of_isDigit (hds c hc) (by decide))
  constructor
  · intro h
    cases h with
    | whole hds =>
      refine ⟨body, [], ?_, ?_, ?_⟩
      · rw [splitFirst_eq_none (hpoint hds.digits), Option.getD_none]
      · rwa [List.append_nil]
      · rw [List.append_nil, List.length_nil, pow_zero, div_one]
    | pointed hds hfs =>
      rename_i ds fs
      refine ⟨ds, fs, ?_, ⟨?_, ?_⟩, (ofDigitChars_append_div ds fs).symm⟩
      · rw [splitFirst_append (hpoint hds.digits) (by decide), Option.getD_some]
      · exact List.append_ne_nil_of_left_ne_nil hds.ne_nil fs
      · exact List.forall_mem_append.2 ⟨hds.digits, hfs⟩
    | fraction hfs => exact ⟨[], _, rfl, hfs, rfl⟩
  · rintro ⟨whole, fraction, hparts, hdigits, rfl⟩
    cases hsplit : splitFirst (· == '.') body with
    | none =>
      rw [hsplit, Option.getD_none] at hparts
      obtain ⟨rfl, rfl⟩ := Prod.mk.inj hparts
      rw [List.append_nil] at hdigits ⊢
      rw [List.length_nil, pow_zero, div_one]
      exact .whole hdigits
    | some parts =>
      rw [hsplit, Option.getD_some] at hparts
      subst hparts
      obtain ⟨c, hc, rfl⟩ := eq_append_of_splitFirst hsplit
      obtain rfl : c = '.' := by simpa using hc
      obtain ⟨hwhole, hfraction⟩ := List.forall_mem_append.1 hdigits.digits
      -- a mantissa that begins with its point has a form of its own
      rcases eq_or_ne whole [] with rfl | hne
      · exact .fraction hdigits
      · rw [ofDigitChars_append_div]
        exact .pointed ⟨hne, hwhole⟩ hfraction

/-- The decimal with a given body behind its sign. -/
def Decimal.ofBody? (negative : Bool) (exponent : ℤ) (body : List Char) : Option Decimal :=
  let (whole, fraction) := (splitFirst (· == '.') body).getD (body, [])
  if (whole ++ fraction).isEmpty || !(whole ++ fraction).all Char.isDigit then none
  else some ⟨negative, whole, fraction, exponent⟩

/-- A body is taken as it stands around its point if it is made of digits. -/
lemma Decimal.ofBody?_eq_some_iff {negative : Bool} {k : ℤ} {body : List Char} {d : Decimal} :
    Decimal.ofBody? negative k body = some d ↔ ∃ whole fraction,
      (splitFirst (· == '.') body).getD (body, []) = (whole, fraction) ∧
        IsDigits (whole ++ fraction) ∧ d = ⟨negative, whole, fraction, k⟩ := by
  unfold Decimal.ofBody?
  generalize (splitFirst (· == '.') body).getD (body, []) = parts
  obtain ⟨whole, fraction⟩ := parts
  have hdigits : (¬((whole ++ fraction).isEmpty || !(whole ++ fraction).all Char.isDigit) = true) ↔
      IsDigits (whole ++ fraction) := by
    rw [Bool.or_eq_true, not_or, Bool.not_eq_true, List.isEmpty_eq_false_iff, Bool.not_eq_true',
      Bool.not_eq_false, List.all_eq_true]
    exact ⟨fun h => ⟨h.1, h.2⟩, fun h => ⟨h.ne_nil, h.digits⟩⟩
  rw [Option.ite_none_left_eq_some, hdigits]
  constructor
  · rintro ⟨h, heq⟩
    exact ⟨whole, fraction, rfl, h, (Option.some.inj heq).symm⟩
  · rintro ⟨whole, fraction, hparts, h, rfl⟩
    obtain ⟨rfl, rfl⟩ := Prod.mk.inj hparts
    exact ⟨h, rfl⟩

/-- **A body is taken exactly if it is a mantissa**, and then its digits make up its number. -/
lemma mantissa_iff_ofBody? {negative : Bool} {k : ℤ} {body : List Char} {x : ℚ} :
    Mantissa body x ↔ ∃ d, Decimal.ofBody? negative k body = some d ∧ d.magnitude = x := by
  have hmagnitude : ∀ whole fraction : List Char,
      (Decimal.mk negative whole fraction k).magnitude =
        Nat.ofDigitChars 10 (whole ++ fraction) 0 / 10 ^ fraction.length := by
    intro whole fraction
    rw [Decimal.magnitude, Decimal.digits, valueOf_eq_ofDigitChars]
  rw [mantissa_iff]
  constructor
  · rintro ⟨whole, fraction, hparts, hdigits, rfl⟩
    exact ⟨_, Decimal.ofBody?_eq_some_iff.2 ⟨whole, fraction, hparts, hdigits, rfl⟩,
      hmagnitude whole fraction⟩
  · rintro ⟨d, hd, rfl⟩
    obtain ⟨whole, fraction, hparts, hdigits, rfl⟩ := Decimal.ofBody?_eq_some_iff.1 hd
    exact ⟨whole, fraction, hparts, hdigits, hmagnitude whole fraction⟩

/-- A mantissa with a sign is read as the sign and the body. -/
lemma SignText.readMantissa?_append {s body : List Char} {u k : ℤ} (h : SignText s u)
    (hbody : s = [] → Stops (fun c => c == '+' || c == '-') body) :
    Decimal.readMantissa? k (s ++ body) = Decimal.ofBody? (decide (u < 0)) k body := by
  cases h with
  | none =>
    cases body with
    | nil => rfl
    | cons c body =>
      have hc := hbody rfl c rfl
      simp only [Bool.or_eq_false_iff, beq_eq_false_iff_ne] at hc
      unfold Decimal.readMantissa?
      split
      rename_i negative rest hrest
      split at hrest
      case h_1 heq => exact absurd (List.cons.inj heq).1 hc.2
      case h_2 heq => exact absurd (List.cons.inj heq).1 hc.1
      case h_3 =>
        cases hrest
        rfl
  | plus => rfl
  | minus => rfl

/-- What is read as a mantissa is a mantissa with a sign. -/
lemma exists_readMantissa?_iff {cs : List Char} {k : ℤ} {q : ℚ} :
    (∃ d, Decimal.readMantissa? k cs = some d ∧ d.value = q) ↔
      ∃ s w u x, cs = s ++ w ∧ SignText s u ∧ Mantissa w x ∧ q = u * x * 10 ^ k := by
  have hvalue : ∀ {s w : List Char} {u : ℤ} {d : Decimal}, SignText s u →
      Decimal.ofBody? (decide (u < 0)) k w = some d → d.value = u * d.magnitude * 10 ^ k := by
    intro s w u d hsign hd
    obtain ⟨whole, fraction, -, -, rfl⟩ := Decimal.ofBody?_eq_some_iff.1 hd
    exact Decimal.value_eq hsign rfl
  constructor
  · rintro ⟨d, hd, rfl⟩
    obtain ⟨s, u, w, rfl, hsign, hw⟩ := exists_signText cs
    rw [hsign.readMantissa?_append hw] at hd
    exact ⟨s, w, u, d.magnitude, rfl, hsign, mantissa_iff_ofBody?.2 ⟨d, hd, rfl⟩, hvalue hsign hd⟩
  · rintro ⟨s, w, u, x, rfl, hsign, hw, rfl⟩
    obtain ⟨d, hd, rfl⟩ := mantissa_iff_ofBody?.1 hw
    rw [hsign.readMantissa?_append fun _ => hw.stops_sign]
    exact ⟨d, hd, hvalue hsign hd⟩

/-- A power of ten is taken off the end of a text. -/
lemma PowerText.read?_append {m e : List Char} {k : ℤ} (he : PowerText e k)
    (hm : ∀ c ∈ m, (c == 'e' || c == 'E') = false) :
    Decimal.read? (m ++ e) = Decimal.readMantissa? k m := by
  unfold Decimal.read?
  cases he with
  | none => rw [List.append_nil, splitFirst_eq_none hm]
  | lower h =>
    rw [splitFirst_append hm (by decide)]
    simp only [Decimal.readExponent?_eq_some_iff.2 h, Option.bind_eq_bind, Option.bind_some]
  | upper h =>
    rw [splitFirst_append hm (by decide)]
    simp only [Decimal.readExponent?_eq_some_iff.2 h, Option.bind_eq_bind, Option.bind_some]

/-- What is read as a decimal has a mantissa before its power of ten. -/
lemma exists_powerText_of_read? {cs : List Char} {d : Decimal} (h : Decimal.read? cs = some d) :
    ∃ m e k, cs = m ++ e ∧ PowerText e k ∧ Decimal.readMantissa? k m = some d := by
  unfold Decimal.read? at h
  split at h
  next m e hsplit =>
    obtain ⟨c, hc, rfl⟩ := eq_append_of_splitFirst hsplit
    obtain ⟨k, hk, hm⟩ := Option.bind_eq_some_iff.1 h
    rw [Decimal.readExponent?_eq_some_iff] at hk
    simp only [Bool.or_eq_true, beq_iff_eq] at hc
    rcases hc with rfl | rfl
    · exact ⟨m, _, k, rfl, .lower hk, hm⟩
    · exact ⟨m, _, k, rfl, .upper hk, hm⟩
  next => exact ⟨cs, [], 0, (List.append_nil cs).symm, .none, h⟩

/-- A sign and a mantissa have no letter. -/
lemma Mantissa.no_letter {s w : List Char} {u : ℤ} {x : ℚ} (hsign : SignText s u)
    (hw : Mantissa w x) : ∀ c ∈ s ++ w, (c == 'e' || c == 'E') = false := by
  intro c hc
  rcases List.mem_append.1 hc with hc | hc
  · rcases hsign.mem hc with rfl | rfl <;> decide
  rcases hw.mem hc with hdigit | rfl
  · have hlower : c ≠ 'e' := ne_of_isDigit hdigit (by decide)
    have hupper : c ≠ 'E' := ne_of_isDigit hdigit (by decide)
    simp [hlower, hupper]
  · decide

/-- **A text is read as a decimal exactly if it is one**, and its value is the number that it
denotes, whatever the number of its digits and the size of its exponent. -/
lemma decimalText_iff {cs : List Char} {q : ℚ} :
    DecimalText cs q ↔ ∃ d, Decimal.read? cs = some d ∧ d.value = q := by
  constructor
  · rintro ⟨hsign, hw, he⟩
    rw [← List.append_assoc, he.read?_append (hw.no_letter hsign)]
    exact exists_readMantissa?_iff.2 ⟨_, _, _, _, rfl, hsign, hw, rfl⟩
  · rintro ⟨d, hd, hq⟩
    obtain ⟨m, e, k, rfl, he, hm⟩ := exists_powerText_of_read? hd
    obtain ⟨s, w, u, x, rfl, hsign, hw, rfl⟩ := exists_readMantissa?_iff.1 ⟨d, hm, hq⟩
    rw [List.append_assoc]
    exact .intro hsign hw he

/-- A text is not shorter than the fraction of its decimal. -/
lemma Decimal.length_fraction_le {cs : List Char} {d : Decimal} (h : Decimal.read? cs = some d) :
    d.fraction.length ≤ cs.length := by
  obtain ⟨m, e, k, rfl, -, hm⟩ := exists_powerText_of_read? h
  obtain ⟨s, u, body, rfl, hsign, hbody⟩ := exists_signText m
  rw [hsign.readMantissa?_append hbody] at hm
  obtain ⟨whole, fraction, hparts, -, rfl⟩ := Decimal.ofBody?_eq_some_iff.1 hm
  have hle : fraction.length ≤ body.length := by
    cases hsplit : splitFirst (· == '.') body with
    | none =>
      rw [hsplit, Option.getD_none] at hparts
      obtain ⟨-, rfl⟩ := Prod.mk.inj hparts
      exact Nat.zero_le _
    | some parts =>
      rw [hsplit, Option.getD_some] at hparts
      subst hparts
      obtain ⟨c, -, rfl⟩ := eq_append_of_splitFirst hsplit
      rw [List.length_append, List.length_cons]
      omega
  simp only [List.length_append]
  omega

/-! ## Number tokens -/

/-- A decimal is made of digits, signs, a point and a letter. -/
lemma DecimalText.mem {cs : List Char} {q : ℚ} (h : DecimalText cs q) {c : Char} (hc : c ∈ cs) :
    c.isDigit = true ∨ c = '+' ∨ c = '-' ∨ c = '.' ∨ c = 'e' ∨ c = 'E' := by
  obtain ⟨hsign, hw, he⟩ := h
  rw [List.mem_append, List.mem_append] at hc
  rcases hc with hc | hc | hc
  · have := hsign.mem hc
    tauto
  · have := hw.mem hc
    tauto
  · have := he.mem hc
    tauto

/-- A decimal has no slash. -/
lemma DecimalText.no_slash {cs : List Char} {q : ℚ} (h : DecimalText cs q) :
    ∀ c ∈ cs, (c == '/') = false := by
  intro c hc
  rcases h.mem hc with hdigit | rfl | rfl | rfl | rfl | rfl
  · exact beq_eq_false_iff_ne.2 (ne_of_isDigit hdigit (by decide))
  all_goals decide

/-- An integer is a decimal without a point and a power of ten. -/
lemma IntegerText.decimalText {cs : List Char} {z : ℤ} (h : IntegerText cs z) :
    DecimalText cs z := by
  obtain ⟨hsign, hds⟩ := h
  have hdecimal := DecimalText.intro hsign (.whole hds) .none
  rw [List.append_nil] at hdecimal
  convert hdecimal using 1
  simp

/-- A numeral is made of digits, signs, a point, a letter and a slash. -/
lemma Numeral.mem {cs : List Char} {q : ℚ} (h : Numeral cs q) {c : Char} (hc : c ∈ cs) :
    c.isDigit = true ∨ c = '+' ∨ c = '-' ∨ c = '.' ∨ c = 'e' ∨ c = 'E' ∨ c = '/' := by
  cases h with
  | fraction hp hq hn =>
    rw [List.mem_append, List.mem_cons] at hc
    rcases hc with hc | rfl | hc
    · have := hp.decimalText.mem hc
      tauto
    · tauto
    · have := hq.decimalText.mem hc
      tauto
  | decimal h =>
    have := h.mem hc
    tauto

/-- Integers have no slash, so a fraction is cut between its numbers. -/
lemma IntegerText.splitFirst_append {p q : List Char} {m : ℤ} (h : IntegerText p m) :
    splitFirst (· == '/') (p ++ '/' :: q) = some (p, q) :=
  Text.splitFirst_append h.decimalText.no_slash (by decide)

/-- A text that is cut at a slash has one. -/
lemma eq_append_of_slash {cs p q : List Char} (h : splitFirst (· == '/') cs = some (p, q)) :
    cs = p ++ '/' :: q := by
  obtain ⟨c, hc, rfl⟩ := eq_append_of_splitFirst h
  rw [beq_iff_eq.1 hc]

/-- A numeral with a slash is a fraction of what stands around the slash. -/
lemma numeral_iff_of_slash {cs p q : List Char} {x : ℚ}
    (h : splitFirst (· == '/') cs = some (p, q)) :
    Numeral cs x ↔ ∃ m n : ℤ, IntegerText p m ∧ IntegerText q n ∧ n ≠ 0 ∧ x = m / n := by
  constructor
  · intro hx
    cases hx with
    | fraction hp hq hn =>
      rw [hp.splitFirst_append] at h
      obtain ⟨rfl, rfl⟩ := Prod.mk.inj (Option.some.inj h)
      exact ⟨_, _, hp, hq, hn, rfl⟩
    | decimal hx =>
      rw [splitFirst_eq_none hx.no_slash] at h
      cases h
  · rintro ⟨m, n, hp, hq, hn, rfl⟩
    rw [eq_append_of_slash h]
    exact .fraction hp hq hn

/-- A numeral without a slash is a decimal. -/
lemma numeral_iff_of_no_slash {cs : List Char} {x : ℚ} (h : splitFirst (· == '/') cs = none) :
    Numeral cs x ↔ ∃ d, Decimal.read? cs = some d ∧ d.value = x := by
  rw [← decimalText_iff]
  constructor
  · intro hx
    cases hx with
    | fraction hp hq hn =>
      rw [hp.splitFirst_append] at h
      cases h
    | decimal hx => exact hx
  · exact .decimal

/-- A numeral denotes one number. -/
lemma Numeral.unique {cs : List Char} {x y : ℚ} (hx : Numeral cs x) (hy : Numeral cs y) :
    x = y := by
  cases hsplit : splitFirst (· == '/') cs with
  | none =>
    obtain ⟨d, hd, rfl⟩ := (numeral_iff_of_no_slash hsplit).1 hx
    obtain ⟨d', hd', rfl⟩ := (numeral_iff_of_no_slash hsplit).1 hy
    rw [Option.some.inj (hd.symm.trans hd')]
  | some parts =>
    obtain ⟨m, n, hp, hq, -, rfl⟩ := (numeral_iff_of_slash hsplit).1 hx
    obtain ⟨m', n', hp', hq', -, rfl⟩ := (numeral_iff_of_slash hsplit).1 hy
    rw [hp.unique hp', hq.unique hq']

/-! ## Tokens that are taken -/

/-- A sign is taken where there is one. -/
lemma takesText_sign : TakesText (fun s => ∃ u, SignText s u) sign := by
  refine .bind_pure (.optional? (.satisfy fun c hc => ?_) ⟨1, .none⟩) _
  simp only [Bool.or_eq_true, beq_iff_eq] at hc
  rcases hc with rfl | rfl
  · exact ⟨1, .plus⟩
  · exact ⟨-1, .minus⟩

lemma takesText_digits1 : TakesText IsDigits digits1 :=
  (TakesText.run1 Char.isDigit).imp fun _ hds => ⟨hds.1, hds.2⟩

/-- Digits behind a sign are an integer. -/
lemma takesText_integer :
    TakesText (fun w => ∃ k, IntegerText w k) (do let _ ← sign; digits1) := by
  refine .bind takesText_sign (fun _ => takesText_digits1) ?_
  rintro s ds ⟨u, hs⟩ hds
  exact ⟨_, .intro hs hds⟩

/-- Digits are taken as a mantissa, with a point behind, among or before them. -/
lemma takesText_mantissa : TakesText (fun w => ∃ x, Mantissa w x)
    ((do let _ ← digits1
         let _ ← optional? (do Parser.char '.'; Parser.run Char.isDigit))
      <|> (do Parser.char '.'; let _ ← digits1)) := by
  have hpoint : TakesText (fun w => w = [] ∨ ∃ fs, w = '.' :: fs ∧ ∀ c ∈ fs, c.isDigit = true)
      (do let _ ← optional? (do Parser.char '.'; Parser.run Char.isDigit)) := by
    refine .bind_pure (.optional? (.bind (.char '.') (fun _ => .run _) ?_) (.inl rfl)) _
    rintro _ fs rfl hfs
    exact .inr ⟨fs, rfl, hfs⟩
  refine .orElse (.bind takesText_digits1 (fun _ => hpoint) ?_)
    (.bind (.char '.') (fun _ => .bind_pure takesText_digits1 _) ?_)
  · rintro ds _ hds (rfl | ⟨fs, rfl, hfs⟩)
    · rw [List.append_nil]
      exact ⟨_, .whole hds⟩
    · exact ⟨_, .pointed hds hfs⟩
  · rintro _ fs rfl hfs
    exact ⟨_, .fraction hfs⟩

/-- A letter and an integer are taken as a power of ten. -/
lemma takesText_power : TakesText (fun w => ∃ k, PowerText w k)
    (do let _ ← optional? (do
          let _ ← satisfy fun c => c == 'e' || c == 'E'
          let _ ← sign
          digits1)) := by
  refine .bind_pure (.optional? (.bind (P := fun w => w = ['e'] ∨ w = ['E'])
    (.satisfy fun c hc => ?_) (fun _ => takesText_integer) ?_) ⟨0, .none⟩) _
  · simp only [Bool.or_eq_true, beq_iff_eq] at hc
    rcases hc with rfl | rfl
    · exact .inl rfl
    · exact .inr rfl
  · rintro _ e (rfl | rfl) ⟨k, he⟩
    · exact ⟨k, .lower he⟩
    · exact ⟨k, .upper he⟩

/-- What is taken as a decimal token is a decimal. -/
lemma decimalText_of_decimalToken {cs w rest : List Char} (h : decimalToken cs = some (w, rest)) :
    cs = w ++ rest ∧ ∃ x, DecimalText w x := by
  refine TakesText.eq_append_of_accepted (P := fun w => ∃ x, DecimalText w x) (.bind takesText_sign
    (fun _ => .bind takesText_mantissa (fun _ => takesText_power)
      (R := fun v => ∃ w e x k, v = w ++ e ∧ Mantissa w x ∧ PowerText e k) ?_) ?_) h
  · rintro w e ⟨x, hw⟩ ⟨k, he⟩
    exact ⟨w, e, x, k, rfl, hw, he⟩
  · rintro s _ ⟨u, hs⟩ ⟨w, e, x, k, rfl, hw, he⟩
    exact ⟨_, .intro hs hw he⟩

/-- What is taken as a fraction token is an integer, or a fraction whose denominator has no sign. -/
lemma integer_or_fraction_of_fractionToken {cs w rest : List Char}
    (h : fractionToken cs = some (w, rest)) : cs = w ++ rest ∧ ((∃ m, IntegerText w m) ∨
      ∃ p q m, w = p ++ '/' :: q ∧ IntegerText p m ∧ IsDigits q) := by
  have hdenominator : TakesText (fun w => w = [] ∨ ∃ q, w = '/' :: q ∧ IsDigits q)
      (do let _ ← optional? (do Parser.char '/'; digits1)) := by
    refine .bind_pure (.optional? (.bind (.char '/') (fun _ => takesText_digits1) ?_)
      (.inl rfl)) _
    rintro _ q rfl hq
    exact .inr ⟨q, rfl, hq⟩
  refine TakesText.eq_append_of_accepted (P := fun w => (∃ m, IntegerText w m) ∨
    ∃ p q m, w = p ++ '/' :: q ∧ IntegerText p m ∧ IsDigits q) (.bind takesText_sign
    (fun _ => .bind takesText_digits1 (fun _ => hdenominator)
      (R := fun v => ∃ ds e, v = ds ++ e ∧ IsDigits ds ∧
        (e = [] ∨ ∃ q, e = '/' :: q ∧ IsDigits q)) ?_) ?_) h
  · rintro ds e hds he
    exact ⟨ds, e, rfl, hds, he⟩
  · rintro s _ ⟨u, hs⟩ ⟨ds, e, rfl, hds, rfl | ⟨q, rfl, hq⟩⟩
    · rw [List.append_nil]
      exact .inl ⟨_, .intro hs hds⟩
    · exact .inr ⟨s ++ ds, q, _, (List.append_assoc ..).symm, .intro hs hds, hq⟩

/-! ## Magnitudes -/

/-- The number of places of a number tells its size, also when the point is moved. -/
lemma le_and_lt_of_places {n : ℕ} (h : n ≠ 0) (k : ℤ) :
    (10 : ℚ) ^ ((Nat.toDigits 10 n).length + k - 1) ≤ n * 10 ^ k ∧
      (n : ℚ) * 10 ^ k < 10 ^ ((Nat.toDigits 10 n).length + k) := by
  have hten : (10 : ℚ) ≠ 0 := by norm_num
  have hpow : (0 : ℚ) < 10 ^ k := zpow_pos (by norm_num) k
  obtain ⟨p, hp⟩ : ∃ p, (Nat.toDigits 10 n).length = p + 1 :=
    Nat.exists_eq_add_one.2 Nat.length_toDigits_pos
  have hlow : 10 ^ p ≤ n := by
    rcases Nat.eq_zero_or_pos p with rfl | hpos
    · exact Nat.one_le_iff_ne_zero.2 h
    · by_contra hlt
      have hle := (Nat.length_toDigits_le_iff (b := 10) (by decide) hpos).2 (not_le.1 hlt)
      omega
  have hhigh : n < 10 ^ (p + 1) :=
    (Nat.length_toDigits_le_iff (by decide) (Nat.succ_pos p)).1 hp.le
  rw [hp]
  constructor
  · have hexponent : ((p + 1 : ℕ) : ℤ) + k - 1 = p + k := by omega
    rw [hexponent, zpow_add₀ hten, zpow_natCast]
    exact mul_le_mul_of_nonneg_right (by exact_mod_cast hlow) hpow.le
  · rw [zpow_add₀ hten, zpow_natCast]
    exact mul_lt_mul_of_pos_right (by exact_mod_cast hhigh) hpow

/-- The magnitude of a decimal is that of its digits. -/
lemma Decimal.abs_value (d : Decimal) : |d.value| = d.digits * 10 ^ d.scale := by
  have hsigned : |(d.signed : ℚ)| = d.digits := by
    unfold Decimal.signed
    split <;> simp
  have hpow : (0 : ℚ) < 10 ^ d.scale := zpow_pos (by norm_num) _
  rw [Decimal.value, abs_mul, hsigned, abs_of_pos hpow]

/-- **Magnitudes are compared exactly**, also where the places alone decide. -/
lemma Decimal.magnitudeAtLeast_iff {bound : ℕ} (hbound : bound ≠ 0) (d : Decimal) :
    d.magnitudeAtLeast bound = true ↔ (bound : ℚ) ≤ |d.value| := by
  have hone : (1 : ℚ) ≤ 10 := by norm_num
  have hten : (10 : ℚ) ≠ 0 := by norm_num
  obtain ⟨hlow, hhigh⟩ := le_and_lt_of_places hbound 0
  rw [zpow_zero, mul_one, add_zero] at hlow hhigh
  rw [d.abs_value]
  unfold magnitudeAtLeast
  dsimp only
  split
  next hzero =>
    rw [hzero, Nat.cast_zero, zero_mul]
    refine iff_of_false Bool.false_ne_true (not_le.2 ?_)
    exact_mod_cast Nat.pos_of_ne_zero hbound
  next hne =>
    -- the places alone decide unless both numbers have as many, and only then is the power computed
    obtain ⟨hleast, hless⟩ := le_and_lt_of_places hne d.scale
    split
    next hfew =>
      refine iff_of_false Bool.false_ne_true (not_le.2 ?_)
      calc (d.digits : ℚ) * 10 ^ d.scale
          < 10 ^ ((Nat.toDigits 10 d.digits).length + d.scale) := hless
        _ ≤ 10 ^ (((Nat.toDigits 10 bound).length : ℤ) - 1) :=
            zpow_le_zpow_right₀ hone (by omega)
        _ ≤ bound := hlow
    next hfew =>
      split
      next hmany =>
        refine iff_of_true rfl (le_of_lt ?_)
        calc (bound : ℚ) < 10 ^ ((Nat.toDigits 10 bound).length : ℤ) := hhigh
          _ ≤ 10 ^ ((Nat.toDigits 10 d.digits).length + d.scale - 1) :=
              zpow_le_zpow_right₀ hone (by omega)
          _ ≤ d.digits * 10 ^ d.scale := hleast
      next hmany =>
        split
        next hscale =>
          obtain ⟨k, hk⟩ := Int.eq_ofNat_of_zero_le hscale
          rw [hk, zpow_natCast, Int.toNat_natCast, decide_eq_true_iff]
          exact_mod_cast Iff.rfl
        next hscale =>
          obtain ⟨k, hk⟩ := Int.eq_ofNat_of_zero_le (by omega : 0 ≤ -d.scale)
          have hpow : (0 : ℚ) < 10 ^ k := pow_pos (by norm_num) k
          have hneg : d.scale = -(k : ℤ) := by omega
          rw [hk, hneg, zpow_neg, zpow_natCast, Int.toNat_natCast, decide_eq_true_iff,
            ← div_eq_mul_inv, le_div_iff₀ hpow]
          exact_mod_cast Iff.rfl

end LinearInterchange
