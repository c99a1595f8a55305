import LinearInterchange.Proofs.Outcome
import LinearInterchange.Term
import Mathlib.Algebra.Order.Field.Rat
import Mathlib.Data.Rat.Lemmas
import Mathlib.Tactic.FieldSimp
import Mathlib.Tactic.Linarith
import Mathlib.Tactic.Positivity

/-!
# Exact values of coefficient arithmetic

Products, sums and value ranges of coefficients either fail or are exact.  The lemmas of this file
say so through `Coeff.val`, and say when the results are integers.
-/

namespace LinearInterchange

namespace Coeff

variable {a b c : Coeff}

/-! ## Range -/

/-- A coefficient is no farther from zero than its numerator. -/
lemma val_mem_range (c : Coeff) :
    -9223372036854775808 ≤ c.val ∧ c.val ≤ 9223372036854775807 := by
  obtain ⟨⟨hleast, hgreatest⟩, -⟩ := c.fits
  have hden : (1 : ℚ) ≤ c.val.den := by exact_mod_cast c.val.den_pos
  have hpos : (0 : ℚ) < c.val.den := lt_of_lt_of_le one_pos hden
  have hleast' : (-9223372036854775808 : ℚ) ≤ c.val.num := by exact_mod_cast hleast
  have hgreatest' : (c.val.num : ℚ) ≤ 9223372036854775807 := by exact_mod_cast hgreatest
  constructor
  · rw [← Rat.num_div_den c.val, le_div_iff₀ hpos]
    linarith
  · rw [← Rat.num_div_den c.val, div_le_iff₀ hpos]
    linarith

/-! ## Products and sums -/

/-- A product that does not overflow is exact. -/
lemma val_of_mul (h : a.mul b = .ok c) : c.val = a.val * b.val := by
  unfold mul at h
  cases hm : mul? a b with
  | none => simp [hm] at h
  | some d =>
    simp only [hm, Option.elim_some, Except.ok.injEq] at h
    rw [← h, val_of_mul? hm]

lemma mul_eq_ok_iff : a.mul b = .ok c ↔ c.val = a.val * b.val := by
  constructor
  · exact val_of_mul
  · intro h
    rw [mul, mul?, ← h, ofRat?_val, Option.elim_some]

/-- A sum that does not overflow is exact. -/
lemma val_of_add (h : a.add b = .ok c) : c.val = a.val + b.val := by
  unfold add at h
  cases hm : add? a b with
  | none => simp [hm] at h
  | some d =>
    simp only [hm, Option.elim_some, Except.ok.injEq] at h
    rw [← h, val_of_add? hm]

/-- Adding to zero never overflows. -/
lemma zero_add_eq_ok (c : Coeff) : (0 : Coeff).add c = .ok c := by
  have hden : (0 : Coeff).val.den = 1 := by simp
  have hnum : (0 : Coeff).val.num = 0 := by simp
  have hself : c.val.den / c.val.den = 1 := Nat.div_self c.val.den_pos
  have hfits : SumFits 0 c := by
    refine ⟨?_, ?_, ?_, ?_⟩ <;> simp only [hden, hnum, Nat.lcm_eq_right (one_dvd _)]
    · exact c.fits.2
    · rw [mul_zero]; decide
    · rw [← Int.natCast_div, hself, Nat.cast_one, one_mul]
      exact c.fits.1
    · rw [mul_zero, zero_add, ← Int.natCast_div, hself, Nat.cast_one, one_mul]
      exact c.fits.1
  unfold add add?
  rw [if_pos hfits, val_zero, zero_add, ofRat?_val, Option.elim_some]

lemma isNegative_iff : a.isNegative = true ↔ a.val < 0 := by
  rw [isNegative, decide_eq_true_eq, Rat.num_neg]

/-! ## Integers -/

/-- A coefficient has no fraction exactly when its value is an integer. -/
lemma isInteger_iff : a.isInteger = true ↔ ∃ n : ℤ, a.val = n := by
  unfold isInteger
  rw [beq_iff_eq]
  constructor
  · intro h
    exact ⟨a.val.num, (Rat.den_eq_one_iff _).1 h |>.symm⟩
  · rintro ⟨n, hn⟩
    rw [hn, Rat.den_intCast]

@[simp] lemma isInteger_ofWord (w : Int64) : (ofWord w).isInteger = true :=
  isInteger_iff.2 ⟨w.toInt, val_ofWord w⟩

@[simp] lemma isInteger_zero : (0 : Coeff).isInteger = true :=
  isInteger_ofWord 0

lemma isInteger_of_add (ha : a.isInteger = true) (hb : b.isInteger = true)
    (h : a.add b = .ok c) : c.isInteger = true := by
  obtain ⟨m, hm⟩ := isInteger_iff.1 ha
  obtain ⟨n, hn⟩ := isInteger_iff.1 hb
  exact isInteger_iff.2 ⟨m + n, by rw [val_of_add h, hm, hn, Int.cast_add]⟩

/-- The integer part of an integer is the integer itself. -/
lemma toInt_truncate (h : a.isInteger = true) : (a.truncate.toInt : ℚ) = a.val := by
  obtain ⟨n, hn⟩ := isInteger_iff.1 h
  have hfits := a.fits.1
  have hnum : a.val.num = n := by rw [hn, Rat.num_intCast]
  have hden : a.val.den = 1 := by rw [hn, Rat.den_intCast]
  unfold truncate
  rw [hden, hnum, Nat.cast_one, Int.tdiv_one]
  rw [hnum] at hfits
  rw [Int64.toInt_ofInt_of_le hfits.1 (Int.lt_add_one_of_le hfits.2), hn]

lemma val_ofWord_ofNat {n : ℕ} (h : FitsWord n) : (ofWord (Int64.ofNat n)).val = n := by
  have hint : (Int64.ofNat n).toInt = n := by
    rw [← Int64.ofInt_eq_ofNat]
    exact toInt_of_word? (if_pos h)
  rw [val_ofWord, hint, Int.cast_natCast]

/-- The product with a multiple of the denominator is an integer. -/
lemma exists_int_mul {n : ℕ} (hdvd : a.val.den ∣ n) : ∃ m : ℤ, a.val * n = m := by
  obtain ⟨k, rfl⟩ := hdvd
  refine ⟨a.val.num * k, ?_⟩
  rw [Nat.cast_mul, ← mul_assoc, Rat.mul_den_eq_num]
  push_cast
  rfl

/-- Scaling by a multiple of the denominator gives an integer. -/
lemma isInteger_of_mul_ofNat {n : ℕ} (hn : FitsWord n) (hdvd : a.val.den ∣ n)
    (h : a.mul (ofWord (Int64.ofNat n)) = .ok c) : c.isInteger = true := by
  rw [isInteger_iff, val_of_mul h, val_ofWord_ofNat hn]
  exact exists_int_mul hdvd

/-- A least common multiple that does not overflow is in the range of words. -/
lemma lcm?_eq_some {m n l : ℕ} (h : lcm? m n = some l) : l = m.lcm n ∧ FitsWord l := by
  unfold lcm? at h
  split at h
  · rename_i hfits
    cases h
    exact ⟨rfl, hfits⟩
  · cases h

/-! ## Words -/

/-- The rational number is a word. -/
def IsWord (q : ℚ) : Prop :=
  ∃ n : ℤ, FitsWord n ∧ q = n

/-- An integer is the value of a coefficient exactly if it is a word. -/
lemma exists_val_eq_iff {q : ℚ} (hq : ∃ n : ℤ, q = n) : (∃ c : Coeff, c.val = q) ↔ IsWord q := by
  constructor
  · rintro ⟨c, rfl⟩
    obtain ⟨n, hn⟩ := hq
    have hfits := c.fits.1
    rw [hn, Rat.num_intCast] at hfits
    exact ⟨n, hfits, hn⟩
  · rintro ⟨n, hn, rfl⟩
    exact ⟨ofWord (Int64.ofInt n), by rw [val_ofWord, toInt_of_word? (if_pos hn)]⟩

lemma isWord_of_isInteger (h : a.isInteger = true) : IsWord a.val :=
  (exists_val_eq_iff (isInteger_iff.1 h)).1 ⟨a, rfl⟩

/-- The product of integers is found exactly if it is a word. -/
lemma exists_mul_eq_ok_iff (ha : a.isInteger = true) (hb : b.isInteger = true) :
    (∃ c, a.mul b = .ok c) ↔ IsWord (a.val * b.val) := by
  obtain ⟨m, hm⟩ := isInteger_iff.1 ha
  obtain ⟨n, hn⟩ := isInteger_iff.1 hb
  simp only [mul_eq_ok_iff]
  exact exists_val_eq_iff ⟨m * n, by rw [hm, hn, Int.cast_mul]⟩

/-- The sum of integers is found exactly if it is a word. -/
lemma exists_add_eq_ok_iff (ha : a.isInteger = true) (hb : b.isInteger = true) :
    (∃ c, a.add b = .ok c) ↔ IsWord (a.val + b.val) := by
  obtain ⟨m, hm⟩ := isInteger_iff.1 ha
  obtain ⟨n, hn⟩ := isInteger_iff.1 hb
  have hsum : a.val + b.val = (m + n : ℤ) := by rw [hm, hn, Int.cast_add]
  have hiff := exists_val_eq_iff ⟨_, hsum⟩
  constructor
  · rintro ⟨c, hc⟩
    exact hiff.1 ⟨c, val_of_add hc⟩
  · intro hword
    obtain ⟨c, hc⟩ := hiff.2 hword
    have hfits : FitsWord (m + n) := by
      have hnum := c.fits.1
      rwa [hc, hsum, Rat.num_intCast] at hnum
    have hm' := a.fits.1
    have hn' := b.fits.1
    -- over the denominator one all numbers of the computation are there
    have hall : SumFits a b := by
      rw [hm, Rat.num_intCast] at hm'
      rw [hn, Rat.num_intCast] at hn'
      simp only [SumFits, hm, hn, Rat.den_intCast, Rat.num_intCast, Nat.lcm_self, Nat.cast_one,
        Int.ediv_one, one_mul]
      exact ⟨by decide, hm', hn', hfits⟩
    refine ⟨c, ?_⟩
    rw [add, add?, if_pos hall, ← hc, ofRat?_val, Option.elim_some]

/-! ## Common denominators -/

/-- The least common multiple of the denominators of coefficients. -/
def commonDenominator (cs : List Coeff) : ℕ :=
  (cs.map (·.val.den)).foldr Nat.lcm 1

/-- The common multiples of the denominators are the multiples of the least one. -/
lemma commonDenominator_dvd_iff {cs : List Coeff} {m : ℕ} :
    commonDenominator cs ∣ m ↔ ∀ c ∈ cs, c.val.den ∣ m := by
  induction cs with
  | nil => simp [commonDenominator]
  | cons c cs ih =>
    rw [List.forall_mem_cons, ← ih]
    exact Nat.lcm_dvd_iff

/-- The least common multiple of the denominators is a multiple of each of them. -/
lemma den_dvd_commonDenominator {cs : List Coeff} {c : Coeff} (hc : c ∈ cs) :
    c.val.den ∣ commonDenominator cs :=
  commonDenominator_dvd_iff.1 dvd_rfl c hc

lemma commonDenominator_pos (cs : List Coeff) : 0 < commonDenominator cs := by
  induction cs with
  | nil => exact Nat.one_pos
  | cons c cs ih => exact Nat.lcm_pos c.val.den_pos ih

lemma commonDenominator_eq_one_iff {cs : List Coeff} :
    commonDenominator cs = 1 ↔ ∀ c ∈ cs, c.isInteger = true := by
  simp only [← Nat.dvd_one, commonDenominator_dvd_iff, isInteger, beq_iff_eq]

/-- One coefficient more is one denominator more. -/
lemma commonDenominator_concat (cs : List Coeff) (c : Coeff) :
    commonDenominator (cs ++ [c]) = (commonDenominator cs).lcm c.val.den := by
  refine Nat.dvd_antisymm ?_ (Nat.lcm_dvd ?_ ?_)
  · rw [commonDenominator_dvd_iff, List.forall_mem_append, List.forall_mem_singleton]
    exact ⟨fun d hd => (den_dvd_commonDenominator hd).trans (Nat.dvd_lcm_left _ _),
      Nat.dvd_lcm_right _ _⟩
  · exact commonDenominator_dvd_iff.2 fun d hd =>
      den_dvd_commonDenominator (List.mem_append_left _ hd)
  · exact den_dvd_commonDenominator (List.mem_append_right _ List.mem_cons_self)

end Coeff

/-! ## Ranges of terms -/

namespace Domain

/-- The integer lies in the domain. -/
def Includes (d : Domain) (x : ℤ) : Prop :=
  d.least.toInt ≤ x ∧ x ≤ d.greatest.toInt

instance (d : Domain) (x : ℤ) : Decidable (d.Includes x) :=
  inferInstanceAs (Decidable (_ ∧ _))

/-- The domain holds a value. -/
def Nonempty (d : Domain) : Prop :=
  d.least.toInt ≤ d.greatest.toInt

instance (d : Domain) : Decidable d.Nonempty :=
  inferInstanceAs (Decidable (_ ≤ _))

/-- Bounds that are accepted are those of the domain, in order. -/
lemma ofBounds_ok {lb ub : Int64} {d : Domain} (h : ofBounds lb ub = .ok d) :
    d = .range lb ub ∧ lb.toInt ≤ ub.toInt := by
  unfold ofBounds at h
  split at h
  · cases h
  · rename_i hle
    cases h
    exact ⟨rfl, Int64.le_iff_toInt_le.1 (Int64.not_lt.1 hle)⟩

end Domain

namespace Term

variable {t : Term} {d : Domain} {lo hi : Coeff}

/-- The value of the term at the end of the domain where it is least. -/
def lowest (t : Term) (d : Domain) : ℚ :=
  t.coeff.val * if t.coeff.isNegative then d.greatest.toInt else d.least.toInt

/-- The value of the term at the end of the domain where it is greatest. -/
def highest (t : Term) (d : Domain) : ℚ :=
  t.coeff.val * if t.coeff.isNegative then d.least.toInt else d.greatest.toInt

/-- The range of a term lies between its least and its greatest value. -/
lemma valueRange_ok (h : t.valueRange d = .ok (lo, hi)) :
    lo.val = t.lowest d ∧ hi.val = t.highest d := by
  unfold valueRange at h
  obtain ⟨atLeast, hleast, h⟩ := bind_eq_ok.1 h
  obtain ⟨atGreatest, hgreatest, h⟩ := bind_eq_ok.1 h
  have hl := Coeff.val_of_mul hleast
  have hg := Coeff.val_of_mul hgreatest
  rw [Coeff.val_ofWord] at hl hg
  unfold lowest highest
  split <;> rename_i hneg <;> simp only [hneg, pure, Except.pure] at h <;> cases h
  · exact ⟨hg, hl⟩
  · exact ⟨hl, hg⟩

/-- Over the values of a domain a term stays between its least and its greatest value. -/
lemma lowest_le_highest (t : Term) {x : ℤ} (hx : d.Includes x) :
    t.lowest d ≤ t.coeff.val * x ∧ t.coeff.val * x ≤ t.highest d := by
  have hl : ((d.least.toInt : ℤ) : ℚ) ≤ x := Int.cast_le.2 hx.1
  have hg : (x : ℚ) ≤ d.greatest.toInt := Int.cast_le.2 hx.2
  unfold lowest highest
  split
  case isTrue hneg =>
    -- a negative factor turns the order of the bounds around
    have hsign : t.coeff.val ≤ 0 := (Coeff.isNegative_iff.1 hneg).le
    exact ⟨mul_le_mul_of_nonpos_left hg hsign, mul_le_mul_of_nonpos_left hl hsign⟩
  case isFalse hneg =>
    have hsign : 0 ≤ t.coeff.val := not_lt.1 (Coeff.isNegative_iff.not.1 hneg)
    exact ⟨mul_le_mul_of_nonneg_left hl hsign, mul_le_mul_of_nonneg_left hg hsign⟩

/-- The range of a term with an integer coefficient is found exactly if its ends are words. -/
lemma exists_valueRange_iff (ht : t.coeff.isInteger = true) :
    (∃ r, t.valueRange d = .ok r) ↔ Coeff.IsWord (t.lowest d) ∧ Coeff.IsWord (t.highest d) := by
  have hends : (∃ r, t.valueRange d = .ok r) ↔
      (∃ c, t.coeff.mul (.ofWord d.least) = .ok c) ∧
        ∃ c, t.coeff.mul (.ofWord d.greatest) = .ok c := by
    unfold valueRange
    simp only [bind_eq_ok]
    constructor
    · rintro ⟨r, a, ha, b, hb, -⟩
      exact ⟨⟨a, ha⟩, b, hb⟩
    · rintro ⟨⟨a, ha⟩, b, hb⟩
      exact ⟨_, a, ha, b, hb, rfl⟩
  rw [hends, Coeff.exists_mul_eq_ok_iff ht (Coeff.isInteger_ofWord _),
    Coeff.exists_mul_eq_ok_iff ht (Coeff.isInteger_ofWord _), Coeff.val_ofWord, Coeff.val_ofWord,
    lowest, highest]
  split
  · exact and_comm
  · exact Iff.rfl

/-- The range of a term with an integer coefficient has integers at its ends. -/
lemma isInteger_valueRange (h : t.valueRange d = .ok (lo, hi))
    (ht : t.coeff.isInteger = true) : lo.isInteger = true ∧ hi.isInteger = true := by
  obtain ⟨n, hn⟩ := Coeff.isInteger_iff.1 ht
  have hend : ∀ (m : ℤ) (c : Coeff), c.val = t.coeff.val * m → c.isInteger = true := by
    intro m c hc
    exact Coeff.isInteger_iff.2 ⟨n * m, by rw [hc, hn, Int.cast_mul]⟩
  obtain ⟨hlo, hhi⟩ := valueRange_ok h
  unfold lowest at hlo
  unfold highest at hhi
  exact ⟨hend _ _ hlo, hend _ _ hhi⟩

end Term

end LinearInterchange
