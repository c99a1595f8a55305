import LinearInterchange.Proofs.Scaling
import LinearInterchange.Proofs.SplitSolutions
import Mathlib.Tactic.Ring

/-!
# When and how a normalizer scales

A normalizer goes through the denominators of the numbers of a constraint, or of the objective, and
gives up as soon as their least common multiple is too large.  The multiples on the way divide that
of all denominators, so the order of the numbers does not matter: the factor is the least common
multiple of all denominators, and it is found exactly if that is within the maximum
(`factor?_eq_some_iff`).  Scaling by it fails only if a product is no word.

So an instance is normalized exactly if each of its parts has such a multiple
(`normalize_eq_ok_iff`), and the multiples are all that changes.
-/

namespace LinearInterchange

/-! ## Multiples of constraints and objectives -/

/-- The second list of terms is the first one with all coefficients multiplied. -/
def Term.AreMultiples (f : ℕ) (ts us : List Term) : Prop :=
  List.Forall₂ (fun t u => u.var = t.var ∧ u.coeff.val = t.coeff.val * (f : ℚ)) ts us

namespace Term

variable {f : ℕ} {ts us : List Term} {value : Var → ℤ}

/-- Only the terms themselves are one times what they are. -/
lemma areMultiples_one_iff : AreMultiples 1 ts us ↔ us = ts := by
  constructor
  · intro h
    induction h with
    | nil => rfl
    | @cons t u _ _ htu _ ih =>
      obtain ⟨hvar, hval⟩ := htu
      rw [Nat.cast_one, mul_one] at hval
      obtain ⟨tc, tv⟩ := t
      obtain ⟨uc, uv⟩ := u
      obtain rfl : uv = tv := hvar
      obtain rfl : uc = tc := Coeff.ext hval
      rw [ih]
  · rintro rfl
    exact List.forall₂_same.2 fun t _ => ⟨rfl, by rw [Nat.cast_one, mul_one]⟩

/-- The variables of multiplied terms are the same. -/
lemma AreMultiples.map_var_eq (h : AreMultiples f ts us) : us.map (·.var) = ts.map (·.var) := by
  induction h with
  | nil => rfl
  | cons htu _ ih => rw [List.map_cons, List.map_cons, htu.1, ih]

/-- The value of a multiplied sum is multiplied. -/
lemma AreMultiples.sumAt_eq (h : AreMultiples f ts us) : sumAt value us = f * sumAt value ts := by
  induction h with
  | nil => rw [sumAt_nil, mul_zero]
  | cons htu _ ih =>
    rw [sumAt_cons, sumAt_cons, ih, htu.1, htu.2]
    ring

/-- Multiplied by a multiple of their denominators, coefficients are integers. -/
lemma AreMultiples.isInteger (h : AreMultiples f ts us)
    (hdvd : ∀ t ∈ ts, t.coeff.val.den ∣ f) : ∀ u ∈ us, u.coeff.isInteger = true := by
  induction h with
  | nil => exact List.forall_mem_nil _
  | cons htu _ ih =>
    rw [List.forall_mem_cons] at hdvd ⊢
    refine ⟨Coeff.isInteger_iff.2 ?_, ih hdvd.2⟩
    rw [htu.2]
    exact Coeff.exists_int_mul hdvd.1

/-- Terms have multiples if all products are words. -/
lemma exists_areMultiples_iff (hdvd : ∀ t ∈ ts, t.coeff.val.den ∣ f) :
    (∃ us, AreMultiples f ts us) ↔ ∀ t ∈ ts, Coeff.IsWord (t.coeff.val * f) := by
  induction ts with
  | nil => exact ⟨fun _ => List.forall_mem_nil _, fun _ => ⟨[], .nil⟩⟩
  | cons t ts ih =>
    rw [List.forall_mem_cons] at hdvd ⊢
    rw [← ih hdvd.2, ← Coeff.exists_val_eq_iff (Coeff.exists_int_mul hdvd.1)]
    constructor
    · rintro ⟨_, _ | ⟨htu, hrest⟩⟩
      exact ⟨⟨_, htu.2⟩, _, hrest⟩
    · rintro ⟨⟨c, hc⟩, us, hus⟩
      exact ⟨⟨c, t.var⟩ :: us, .cons ⟨rfl, hc⟩ hus⟩

/-- Scaling by a word gives the multiples. -/
lemma scaleAll_eq_ok_iff (hf : FitsWord f) :
    scaleAll (.ofWord (Int64.ofNat f)) ts = (us, .ok ()) ↔ AreMultiples f ts us := by
  induction ts generalizing us with
  | nil => simp [scaleAll, AreMultiples, eq_comm]
  | cons t ts ih =>
    rw [scaleAll]
    constructor
    · intro h
      split at h
      · cases h
      · rename_i c hc
        simp only [Prod.mk.injEq] at h
        obtain ⟨rfl, hok⟩ := h
        rw [Coeff.mul_eq_ok_iff, Coeff.val_ofWord_ofNat hf] at hc
        exact .cons ⟨rfl, hc⟩ (ih.1 (Prod.ext rfl hok))
    · rintro (_ | ⟨⟨hvar, hval⟩, hrest⟩)
      rw [← Coeff.val_ofWord_ofNat hf, ← Coeff.mul_eq_ok_iff] at hval
      simp only [hval, ih.2 hrest, ← hvar]

end Term

namespace LinConstraint

variable {f : ℕ} {c c' : LinConstraint}

/-- The numbers of a constraint: the coefficients and the right-hand side. -/
def numbers (c : LinConstraint) : List Coeff :=
  c.terms.map (·.coeff) ++ [c.rhs]

/-- The second constraint is the first one multiplied. -/
structure IsMultiple (f : ℕ) (c c' : LinConstraint) : Prop where
  /-- The coefficients are multiplied, the variables and their order are the same. -/
  terms : Term.AreMultiples f c.terms c'.terms
  /-- The relation is the same. -/
  rel_eq : c'.rel = c.rel
  /-- The right-hand side is multiplied. -/
  rhs_eq : c'.rhs.val = c.rhs.val * f

/-- A constraint is integral exactly if all its numbers are integers. -/
lemma commonDenominator_numbers_eq_one_iff :
    Coeff.commonDenominator c.numbers = 1 ↔ c.isIntegral = true := by
  rw [Coeff.commonDenominator_eq_one_iff, numbers, List.forall_mem_append,
    List.forall_mem_singleton, List.forall_mem_map, and_comm, isIntegral_iff]

/-- Only the constraint itself is one times what it is. -/
lemma isMultiple_one_iff : c.IsMultiple 1 c' ↔ c' = c := by
  constructor
  · rintro ⟨hterms, hrel, hrhs⟩
    rw [Nat.cast_one, mul_one] at hrhs
    obtain ⟨ts, rel, rhs⟩ := c
    obtain ⟨ts', rel', rhs'⟩ := c'
    obtain rfl : ts' = ts := Term.areMultiples_one_iff.1 hterms
    obtain rfl : rel' = rel := hrel
    obtain rfl : rhs' = rhs := Coeff.ext hrhs
    rfl
  · rintro rfl
    exact ⟨Term.areMultiples_one_iff.2 rfl, rfl, by rw [Nat.cast_one, mul_one]⟩

/-- A constraint has a multiple if all products are words. -/
lemma exists_isMultiple_iff (hdvd : ∀ a ∈ c.numbers, a.val.den ∣ f) :
    (∃ c', c.IsMultiple f c') ↔ ∀ a ∈ c.numbers, Coeff.IsWord (a.val * f) := by
  rw [numbers, List.forall_mem_append, List.forall_mem_singleton, List.forall_mem_map] at *
  rw [← Term.exists_areMultiples_iff hdvd.1,
    ← Coeff.exists_val_eq_iff (Coeff.exists_int_mul hdvd.2)]
  constructor
  · rintro ⟨c', h⟩
    exact ⟨⟨_, h.terms⟩, _, h.rhs_eq⟩
  · rintro ⟨⟨ts, hts⟩, rhs, hrhs⟩
    exact ⟨⟨ts, c.rel, rhs⟩, hts, rfl, hrhs⟩

/-- Multiplied by a multiple of its denominators, a constraint is integral. -/
lemma IsMultiple.isIntegral (h : c.IsMultiple f c') (hdvd : ∀ a ∈ c.numbers, a.val.den ∣ f) :
    c'.isIntegral = true := by
  rw [numbers, List.forall_mem_append, List.forall_mem_singleton, List.forall_mem_map] at hdvd
  refine isIntegral_iff.2 ⟨Coeff.isInteger_iff.2 ?_, h.terms.isInteger hdvd.1⟩
  rw [h.rhs_eq]
  exact Coeff.exists_int_mul hdvd.2

/-- A positive multiple holds where the constraint does. -/
lemma IsMultiple.holdsAt_iff (h : c.IsMultiple f c') (hf : 0 < f) {value : Var → ℤ} :
    c'.HoldsAt value ↔ c.HoldsAt value := by
  rw [HoldsAt, HoldsAt, h.rel_eq, h.rhs_eq, h.terms.sumAt_eq, mul_comm c.rhs.val]
  exact Relation.compares_mul (Nat.cast_pos.2 hf)

/-- Scaling by a positive word gives the multiple. -/
lemma scale_eq_ok_iff (hf : FitsWord f) (hpos : 0 < f) :
    c.scale (.ofWord (Int64.ofNat f)) = (c', .ok ()) ↔ c.IsMultiple f c' := by
  have hfactor : ¬ (Coeff.ofWord (Int64.ofNat f)).val ≤ 0 := by
    rw [Coeff.val_ofWord_ofNat hf, not_le]
    exact Nat.cast_pos.2 hpos
  rw [scale, if_neg hfactor]
  constructor
  · intro h
    split at h
    · cases h
    · rename_i hterms
      split at h
      · cases h
      · rename_i hrhs
        cases h
        rw [Coeff.mul_eq_ok_iff, Coeff.val_ofWord_ofNat hf] at hrhs
        exact ⟨(Term.scaleAll_eq_ok_iff hf).1 hterms, rfl, hrhs⟩
  · rintro ⟨hterms, hrel, hrhs⟩
    rw [← Coeff.val_ofWord_ofNat hf, ← Coeff.mul_eq_ok_iff] at hrhs
    simp only [(Term.scaleAll_eq_ok_iff hf).2 hterms, hrhs, ← hrel]

end LinConstraint

namespace Objective

variable {f : ℕ} {o o' : Objective}

/-- The numbers of an objective: the coefficients. -/
def numbers (o : Objective) : List Coeff :=
  o.terms.map (·.coeff)

/-- The second objective is the first one multiplied. -/
structure IsMultiple (f : ℕ) (o o' : Objective) : Prop where
  /-- The coefficients are multiplied, the variables and their order are the same. -/
  terms : Term.AreMultiples f o.terms o'.terms
  /-- The direction is the same. -/
  direction_eq : o'.direction = o.direction

/-- An objective is integral exactly if all its numbers are integers. -/
lemma commonDenominator_numbers_eq_one_iff :
    Coeff.commonDenominator o.numbers = 1 ↔ o.isIntegral = true := by
  rw [Coeff.commonDenominator_eq_one_iff, numbers, List.forall_mem_map, isIntegral,
    Term.allIntegers_iff]

/-- Only the objective itself is one times what it is. -/
lemma isMultiple_one_iff : o.IsMultiple 1 o' ↔ o' = o := by
  constructor
  · rintro ⟨hterms, hdir⟩
    obtain ⟨dir, ts⟩ := o
    obtain ⟨dir', ts'⟩ := o'
    obtain rfl : ts' = ts := Term.areMultiples_one_iff.1 hterms
    obtain rfl : dir' = dir := hdir
    rfl
  · rintro rfl
    exact ⟨Term.areMultiples_one_iff.2 rfl, rfl⟩

/-- An objective has a multiple if all products are words. -/
lemma exists_isMultiple_iff (hdvd : ∀ a ∈ o.numbers, a.val.den ∣ f) :
    (∃ o', o.IsMultiple f o') ↔ ∀ a ∈ o.numbers, Coeff.IsWord (a.val * f) := by
  rw [numbers, List.forall_mem_map] at *
  rw [← Term.exists_areMultiples_iff hdvd]
  exact ⟨fun ⟨_, h⟩ => ⟨_, h.terms⟩, fun ⟨ts, hts⟩ => ⟨⟨o.direction, ts⟩, hts, rfl⟩⟩

/-- Scaling by a word gives the multiple. -/
lemma scale_eq_ok_iff (hf : FitsWord f) :
    o.scale (.ofWord (Int64.ofNat f)) = (o', .ok ()) ↔ o.IsMultiple f o' := by
  rw [scale, Prod.mk.injEq]
  constructor
  · rintro ⟨rfl, hok⟩
    exact ⟨(Term.scaleAll_eq_ok_iff hf).1 (Prod.ext rfl hok), rfl⟩
  · rintro ⟨hterms, hdir⟩
    simp only [(Term.scaleAll_eq_ok_iff hf).2 hterms, ← hdir, and_self]

end Objective

/-! ## The factor -/

namespace Normalizer

variable {n : Normalizer} {f : ℕ} {cs : List Coeff}

lemma one_le_maxFactor (n : Normalizer) : ((1 : ℕ) : ℤ) ≤ n.maxFactor.toInt :=
  Int64.lt_iff_toInt_lt.1 n.positive

/-- A common multiple on the way is given up if it is above the maximum. -/
lemma filter_lcm? {a b : ℕ} :
    (Coeff.lcm? a b).filter (fun f : ℕ => (f : ℤ) ≤ n.maxFactor.toInt) =
      if (a.lcm b : ℤ) ≤ n.maxFactor.toInt then some (a.lcm b) else none := by
  have hmax : n.maxFactor.toInt ≤ 9223372036854775807 := (fitsWord_toInt _).2
  unfold Coeff.lcm?
  by_cases hle : (a.lcm b : ℤ) ≤ n.maxFactor.toInt
  · have hfits : FitsWord (a.lcm b) := ⟨by omega, hle.trans hmax⟩
    rw [if_pos hfits, if_pos hle, Option.filter_some, if_pos (by simpa using hle)]
  · rw [if_neg hle]
    split
    · rw [Option.filter_some, if_neg (by simpa using hle)]
    · rfl

/-- The common multiple of a number and denominators, as long as it stays within the maximum. -/
lemma foldlM_lcm?_eq_some_iff {start : ℕ} (hpos : 0 < start)
    (hstart : (start : ℤ) ≤ n.maxFactor.toInt) :
    cs.foldlM (fun f c => (Coeff.lcm? f c.val.den).filter fun f => f ≤ n.maxFactor.toInt) start
      = some f ↔ f = start.lcm (Coeff.commonDenominator cs) ∧ (f : ℤ) ≤ n.maxFactor.toInt := by
  induction cs generalizing start with
  | nil =>
    rw [List.foldlM_nil, Coeff.commonDenominator, List.map_nil, List.foldr_nil, Nat.lcm_one_right]
    constructor
    · intro h
      cases h
      exact ⟨rfl, hstart⟩
    · rintro ⟨rfl, -⟩
      rfl
  | cons c cs ih =>
    have hcons : start.lcm (Coeff.commonDenominator (c :: cs)) =
        (start.lcm c.val.den).lcm (Coeff.commonDenominator cs) := (Nat.lcm_assoc _ _ _).symm
    have hnext : 0 < start.lcm c.val.den := Nat.lcm_pos hpos c.val.den_pos
    rw [List.foldlM_cons, filter_lcm?, hcons]
    split
    case isTrue hle => exact ih hnext hle
    case isFalse hle =>
      -- the multiple of all denominators is not less than the one on the way
      have hlcm := Nat.le_of_dvd (Nat.lcm_pos hnext (Coeff.commonDenominator_pos cs))
        (Nat.dvd_lcm_left (start.lcm c.val.den) (Coeff.commonDenominator cs))
      refine ⟨fun h => (by cases h), ?_⟩
      rintro ⟨rfl, hfle⟩
      omega

/-- **The factor is the least common multiple of the denominators.**  It is found exactly if it is
within the maximum. -/
lemma factor?_eq_some_iff :
    n.factor? cs = some f ↔ f = Coeff.commonDenominator cs ∧ (f : ℤ) ≤ n.maxFactor.toInt := by
  have h : n.factor? cs = some f ↔
      f = Nat.lcm 1 (Coeff.commonDenominator cs) ∧ (f : ℤ) ≤ n.maxFactor.toInt :=
    foldlM_lcm?_eq_some_iff Nat.one_pos n.one_le_maxFactor
  rwa [Nat.lcm_one_left] at h

/-- The numbers can be made integers: the least common multiple of their denominators is within the
maximum, and all products with it are words. -/
structure Accepts (n : Normalizer) (cs : List Coeff) : Prop where
  /-- The factor is within the maximum. -/
  bounded : (Coeff.commonDenominator cs : ℤ) ≤ n.maxFactor.toInt
  /-- The products are words. -/
  fits : ∀ a ∈ cs, Coeff.IsWord (a.val * Coeff.commonDenominator cs)

lemma fitsWord_of_le (h : (f : ℤ) ≤ n.maxFactor.toInt) : FitsWord f :=
  ⟨by omega, h.trans (fitsWord_toInt _).2⟩

/-! ## Constraints -/

/-- The second constraint is the first one times the least common multiple of its denominators,
which is within the maximum. -/
structure Normalizes (n : Normalizer) (c c' : LinConstraint) : Prop where
  /-- The factor is within the maximum. -/
  bounded : (Coeff.commonDenominator c.numbers : ℤ) ≤ n.maxFactor.toInt
  /-- The constraint is multiplied by the factor. -/
  multiple : c.IsMultiple (Coeff.commonDenominator c.numbers) c'

/-- A constraint has a normalized form exactly if its numbers are accepted. -/
lemma exists_normalizes_iff {c : LinConstraint} :
    (∃ c', n.Normalizes c c') ↔ n.Accepts c.numbers := by
  have hiff := c.exists_isMultiple_iff fun a ha => Coeff.den_dvd_commonDenominator ha
  constructor
  · rintro ⟨c', hle, hmul⟩
    exact ⟨hle, hiff.1 ⟨c', hmul⟩⟩
  · rintro ⟨hle, hfits⟩
    obtain ⟨c', hmul⟩ := hiff.2 hfits
    exact ⟨c', hle, hmul⟩

/-- An integral constraint is its own normalized form. -/
lemma normalizes_self {c : LinConstraint} (h : c.isIntegral = true) : n.Normalizes c c := by
  have hone := LinConstraint.commonDenominator_numbers_eq_one_iff.2 h
  refine ⟨?_, ?_⟩
  · rw [hone]
    exact n.one_le_maxFactor
  · rw [hone]
    exact LinConstraint.isMultiple_one_iff.2 rfl

/-- Scaling a constraint gives its normalized form. -/
lemma scaleConstr_eq_ok_iff {number : ℕ} {c c' : LinConstraint} {scaled : Bool} :
    n.scaleConstr number c = (c', .ok scaled) ↔ n.Normalizes c c' ∧ scaled = !c.isIntegral := by
  have hone := c.commonDenominator_numbers_eq_one_iff
  rw [scaleConstr, ← LinConstraint.numbers]
  cases hfactor : n.factor? c.numbers with
  | none =>
    refine ⟨fun h => (by cases h), ?_⟩
    rintro ⟨⟨hle, -⟩, -⟩
    rw [factor?_eq_some_iff.2 ⟨rfl, hle⟩] at hfactor
    cases hfactor
  | some f =>
    obtain ⟨rfl, hle⟩ := factor?_eq_some_iff.1 hfactor
    -- a factor of one leaves the constraint alone, which is what multiplying by it would do
    split
    case h_1 heq => cases heq
    case h_2 heq =>
      rw [Option.some.injEq] at heq
      have hself := normalizes_self (n := n) (hone.1 heq)
      rw [hone.1 heq]
      constructor
      · intro h
        cases h
        exact ⟨hself, rfl⟩
      · rintro ⟨⟨-, hmul⟩, rfl⟩
        rw [heq, LinConstraint.isMultiple_one_iff] at hmul
        rw [hmul]
        rfl
    case h_3 f' hne heq =>
      rw [Option.some.injEq] at heq
      subst heq
      have hint : c.isIntegral = false := Bool.eq_false_iff.2 fun h => hne (hone.2 h)
      have hscale : c.scale _ = (c', .ok ()) ↔ _ :=
        LinConstraint.scale_eq_ok_iff (fitsWord_of_le hle) (Coeff.commonDenominator_pos _)
      rw [hint, Prod.mk.injEq, map_eq_ok]
      constructor
      · rintro ⟨rfl, ⟨u, hu, rfl⟩⟩
        exact ⟨⟨hle, hscale.1 (Prod.ext rfl (mapError_eq_ok.1 hu))⟩, rfl⟩
      · rintro ⟨⟨-, hmul⟩, rfl⟩
        have hok := hscale.2 hmul
        rw [hok]
        exact ⟨rfl, (), rfl, rfl⟩

/-- Scaling constraints gives their normalized forms, in order. -/
lemma scaleConstrs_eq_ok_iff {number count : ℕ} {cs cs' : List LinConstraint} :
    n.scaleConstrs number cs = (cs', .ok count) ↔
      List.Forall₂ n.Normalizes cs cs' ∧ count = cs.countP fun c => !c.isIntegral := by
  induction cs generalizing number cs' count with
  | nil => simp [scaleConstrs, eq_comm]
  | cons c cs ih =>
    rw [scaleConstrs, List.forall₂_cons_left_iff, List.countP_cons]
    constructor
    · intro h
      split at h
      · cases h
      · rename_i c' scaled hscale
        obtain ⟨hc, rfl⟩ := scaleConstr_eq_ok_iff.1 hscale
        simp only [Prod.mk.injEq] at h
        obtain ⟨rfl, hok⟩ := h
        obtain ⟨k, hk, rfl⟩ := map_eq_ok.1 hok
        obtain ⟨hcs, rfl⟩ := ih.1 (Prod.ext rfl hk)
        refine ⟨⟨c', _, hc, hcs, rfl⟩, ?_⟩
        cases c.isIntegral <;> rfl
    · rintro ⟨⟨c', cs', hc, hcs, rfl⟩, rfl⟩
      have hscale : n.scaleConstr number c = (c', .ok _) := scaleConstr_eq_ok_iff.2 ⟨hc, rfl⟩
      have hrest : n.scaleConstrs (number + 1) cs = (cs', .ok _) := ih.2 ⟨hcs, rfl⟩
      simp only [hscale, hrest]
      cases c.isIntegral <;> rfl

/-! ## The objective -/

/-- The second objective is the first one times the least common multiple of its denominators, which
is within the maximum. -/
structure NormalizesObjective (n : Normalizer) (o o' : Objective) : Prop where
  /-- The factor is within the maximum. -/
  bounded : (Coeff.commonDenominator o.numbers : ℤ) ≤ n.maxFactor.toInt
  /-- The objective is multiplied by the factor. -/
  multiple : o.IsMultiple (Coeff.commonDenominator o.numbers) o'

/-- An objective has a normalized form exactly if its numbers are accepted. -/
lemma exists_normalizesObjective_iff {o : Objective} :
    (∃ o', n.NormalizesObjective o o') ↔ n.Accepts o.numbers := by
  have hiff := o.exists_isMultiple_iff fun a ha => Coeff.den_dvd_commonDenominator ha
  constructor
  · rintro ⟨o', hle, hmul⟩
    exact ⟨hle, hiff.1 ⟨o', hmul⟩⟩
  · rintro ⟨hle, hfits⟩
    obtain ⟨o', hmul⟩ := hiff.2 hfits
    exact ⟨o', hle, hmul⟩

/-- An integral objective is its own normalized form. -/
lemma normalizesObjective_self {o : Objective} (h : o.isIntegral = true) :
    n.NormalizesObjective o o := by
  have hone := Objective.commonDenominator_numbers_eq_one_iff.2 h
  refine ⟨?_, ?_⟩
  · rw [hone]
    exact n.one_le_maxFactor
  · rw [hone]
    exact Objective.isMultiple_one_iff.2 rfl

/-- Scaling an objective gives its normalized form. -/
lemma scaleObjective_eq_ok_iff {o o' : Objective} :
    n.scaleObjective o = (o', .ok ()) ↔ n.NormalizesObjective o o' := by
  have hone := o.commonDenominator_numbers_eq_one_iff
  rw [scaleObjective, ← Objective.numbers]
  cases hfactor : n.factor? o.numbers with
  | none =>
    refine ⟨fun h => (by cases h), ?_⟩
    rintro ⟨hle, -⟩
    rw [factor?_eq_some_iff.2 ⟨rfl, hle⟩] at hfactor
    cases hfactor
  | some f =>
    obtain ⟨rfl, hle⟩ := factor?_eq_some_iff.1 hfactor
    -- as for constraints, a factor of one is not multiplied with
    split
    case h_1 heq => cases heq
    case h_2 heq =>
      rw [Option.some.injEq] at heq
      have hself := normalizesObjective_self (n := n) (hone.1 heq)
      constructor
      · intro h
        cases h
        exact hself
      · rintro ⟨-, hmul⟩
        rw [heq, Objective.isMultiple_one_iff] at hmul
        rw [hmul]
    case h_3 f' hne heq =>
      rw [Option.some.injEq] at heq
      subst heq
      have hscale : o.scale _ = (o', .ok ()) ↔ _ := Objective.scale_eq_ok_iff (fitsWord_of_le hle)
      rw [Prod.mk.injEq, mapError_eq_ok]
      constructor
      · rintro ⟨rfl, hok⟩
        exact ⟨hle, hscale.1 (Prod.ext rfl hok)⟩
      · rintro ⟨-, hmul⟩
        rw [hscale.2 hmul]
        exact ⟨rfl, rfl⟩

/-! ## Instances -/

variable {inst inst' : Instance} {count : ℕ}

/-- **Normalizing an instance** replaces the constraints and the objective by their normalized
forms, and counts the constraints with a fraction. -/
lemma normalize_eq_ok_iff : n.normalize inst = (inst', .ok count) ↔
    List.Forall₂ n.Normalizes inst.constrs inst'.constrs ∧
      n.NormalizesObjective inst.objective inst'.objective ∧
      inst' = { inst with constrs := inst'.constrs, objective := inst'.objective } ∧
      count = inst.constrs.countP fun c => !c.isIntegral := by
  unfold normalize
  constructor
  · intro h
    split at h
    · cases h
    · rename_i cs k hscale
      obtain ⟨hcs, rfl⟩ := scaleConstrs_eq_ok_iff.1 hscale
      simp only [Prod.mk.injEq] at h
      obtain ⟨rfl, hok⟩ := h
      obtain ⟨u, hu, rfl⟩ := map_eq_ok.1 hok
      exact ⟨hcs, scaleObjective_eq_ok_iff.1 (Prod.ext rfl hu), rfl, rfl⟩
  · rintro ⟨hcs, ho, heq, rfl⟩
    have hscale : n.scaleConstrs 1 inst.constrs = (inst'.constrs, .ok _) :=
      scaleConstrs_eq_ok_iff.2 ⟨hcs, rfl⟩
    simp only [hscale, scaleObjective_eq_ok_iff.2 ho, ← heq]
    rfl

/-- A normalized instance has integers only. -/
lemma isIntegral_normalize (h : n.normalize inst = (inst', .ok count)) :
    (∀ c ∈ inst'.constrs, c.isIntegral = true) ∧ inst'.objective.isIntegral = true := by
  obtain ⟨hcs, ho, -, -⟩ := normalize_eq_ok_iff.1 h
  constructor
  · intro c' hc'
    obtain ⟨k, hk, rfl⟩ := List.getElem_of_mem hc'
    have hc := hcs.get (hcs.length_eq ▸ hk) hk
    exact hc.multiple.isIntegral fun a ha => Coeff.den_dvd_commonDenominator ha
  · refine Term.allIntegers_iff.2 (ho.multiple.terms.isInteger fun t ht => ?_)
    exact Coeff.den_dvd_commonDenominator (List.mem_map_of_mem ht)

lemma Normalizes.holdsAt_iff {c c' : LinConstraint} (h : n.Normalizes c c') {value : Var → ℤ} :
    c'.HoldsAt value ↔ c.HoldsAt value :=
  h.multiple.holdsAt_iff (Coeff.commonDenominator_pos _)

/-- Constraints have normalized forms exactly if the numbers of each are accepted. -/
lemma exists_normalized_iff {cs : List LinConstraint} :
    (∃ cs', List.Forall₂ n.Normalizes cs cs') ↔ ∀ c ∈ cs, n.Accepts c.numbers := by
  induction cs with
  | nil => exact ⟨fun _ => List.forall_mem_nil _, fun _ => ⟨[], .nil⟩⟩
  | cons c cs ih =>
    rw [List.forall_mem_cons, ← ih, ← exists_normalizes_iff]
    constructor
    · rintro ⟨_, _ | ⟨hc, hrest⟩⟩
      exact ⟨⟨_, hc⟩, _, hrest⟩
    · rintro ⟨⟨c', hc⟩, cs', hcs'⟩
      exact ⟨c' :: cs', .cons hc hcs'⟩

/-- Normalized forms hold together where the constraints do. -/
lemma allHold_normalized {cs cs' : List LinConstraint} (h : List.Forall₂ n.Normalizes cs cs')
    {value : Var → ℤ} : AllHold value cs' ↔ AllHold value cs := by
  unfold AllHold
  induction h with
  | nil => exact Iff.rfl
  | cons hc _ ih => rw [List.forall_mem_cons, List.forall_mem_cons, hc.holdsAt_iff, ih]

/-- The variables of normalized forms lie in their domains where those of the constraints do. -/
lemma inDomains_normalized (hbyId : inst'.byId = inst.byId) {cs cs' : List LinConstraint}
    (h : List.Forall₂ n.Normalizes cs cs') {value : Var → Option Int64} :
    (∀ c ∈ cs', inst'.inDomains value c.terms = true) ↔
      ∀ c ∈ cs, inst.inDomains value c.terms = true := by
  induction h with
  | nil => exact ⟨fun _ => List.forall_mem_nil _, fun _ => List.forall_mem_nil _⟩
  | cons hc _ ih =>
    rw [List.forall_mem_cons, List.forall_mem_cons, ih,
      Instance.inDomains_congr hbyId hc.multiple.terms.map_var_eq]

/-- **Normalizing is exact, minimal and complete.**  It succeeds exactly if the least common
multiple of the denominators of each constraint and of the objective is within the maximum and all
products with it are words.  Then each constraint and the objective are multiplied by that number
and by no other one, which makes them integral and changes neither variables, their order, relations
nor the direction; the solutions are the same, and so is every answer that both instances give to an
assignment.  Nothing else changes, the number that is reported is that of the constraints with a
fraction, and normalizing once more changes nothing. -/
theorem normalize_exact (n : Normalizer) (inst : Instance) :
    ((∃ inst' count, n.normalize inst = (inst', .ok count)) ↔
      (∀ c ∈ inst.constrs, n.Accepts c.numbers) ∧ n.Accepts inst.objective.numbers) ∧
    ∀ inst' count, n.normalize inst = (inst', .ok count) →
      List.Forall₂ (fun c c' => c.IsMultiple (Coeff.commonDenominator c.numbers) c' ∧
        c'.isIntegral = true ∧ ∀ value, c'.HoldsAt value ↔ c.HoldsAt value)
        inst.constrs inst'.constrs ∧
      inst.objective.IsMultiple (Coeff.commonDenominator inst.objective.numbers) inst'.objective ∧
      inst'.objective.isIntegral = true ∧
      (∀ value, inst'.IsSolution value ↔ inst.IsSolution value) ∧
      (∀ value b b', inst.isSatisfiedBy value = some b → inst'.isSatisfiedBy value = some b' →
        b' = b) ∧
      inst' = { inst with constrs := inst'.constrs, objective := inst'.objective } ∧
      count = (inst.constrs.countP fun c => !c.isIntegral) ∧
      n.normalize inst' = (inst', .ok 0) := by
  constructor
  · rw [← exists_normalized_iff, ← exists_normalizesObjective_iff]
    constructor
    · rintro ⟨inst', count, h⟩
      obtain ⟨hcs, ho, -, -⟩ := normalize_eq_ok_iff.1 h
      exact ⟨⟨_, hcs⟩, _, ho⟩
    · rintro ⟨⟨cs, hcs⟩, o, ho⟩
      exact ⟨{ inst with constrs := cs, objective := o }, _,
        normalize_eq_ok_iff.2 ⟨hcs, ho, rfl, rfl⟩⟩
  · intro inst' count h
    obtain ⟨hcs, ho, heq, hcount⟩ := normalize_eq_ok_iff.1 h
    obtain ⟨hints, hobj⟩ := isIntegral_normalize h
    have hbyId : inst'.byId = inst.byId := by rw [heq]
    have hvars : inst'.vars = inst.vars := Instance.vars_congr (by rw [heq]) hbyId
    refine ⟨?_, ho.multiple, hobj, fun value => ?_, ?_, heq, hcount, ?_⟩
    · refine ((List.forall₂_and_left _ _).2 ⟨hints, hcs.flip⟩).flip.imp ?_
      rintro c c' ⟨hint, hc⟩
      exact ⟨hc.multiple, hint, fun value => hc.holdsAt_iff⟩
    · constructor
      · rintro ⟨hin, hhold⟩
        exact ⟨hvars ▸ hin, (allHold_normalized hcs).1 hhold⟩
      · rintro ⟨hin, hhold⟩
        exact ⟨hvars.symm ▸ hin, (allHold_normalized hcs).2 hhold⟩
    · intro value b b' hb hb'
      rw [Bool.eq_iff_iff, Instance.isSatisfiedBy_eq_some hb, Instance.isSatisfiedBy_eq_some hb',
        allHold_normalized hcs, inDomains_normalized hbyId hcs]
    -- what is integral already is its own normalized form
    · refine normalize_eq_ok_iff.2 ⟨?_, normalizesObjective_self hobj, rfl, ?_⟩
      · exact List.forall₂_same.2 fun c hc => normalizes_self (hints c hc)
      · exact (List.countP_eq_zero.2 fun c hc => by simp [hints c hc]).symm

/-- A maximum of six is enough for a half and a third in one constraint, and a maximum of five is
not. -/
theorem normalize_exact_six : ∃ inst',
    (⟨6, by decide⟩ : Normalizer).normalize Instance.fractional = (inst', .ok 1) ∧
      (∀ value, inst'.IsSolution value ↔ Instance.fractional.IsSolution value) ∧
      inst'.objective.isIntegral = true ∧
      (⟨6, by decide⟩ : Normalizer).normalize inst' = (inst', .ok 0) ∧
      ¬ ((∀ c ∈ Instance.fractional.constrs, (⟨5, by decide⟩ : Normalizer).Accepts c.numbers) ∧
        (⟨5, by decide⟩ : Normalizer).Accepts Instance.fractional.objective.numbers) := by
  have h : (⟨6, by decide⟩ : Normalizer).normalize Instance.fractional =
      (((⟨6, by decide⟩ : Normalizer).normalize Instance.fractional).1, .ok 1) := by
    decide +kernel
  have hfive : ((⟨5, by decide⟩ : Normalizer).normalize Instance.fractional).2 =
      .error ⟨.constraint 1, 5⟩ := by decide +kernel
  obtain ⟨-, -, hobj, hsol, -, -, -, hagain⟩ := (normalize_exact _ _).2 _ _ h
  refine ⟨_, h, hsol, hobj, hagain, ?_⟩
  rw [← (normalize_exact _ _).1]
  rintro ⟨inst', count, hok⟩
  rw [hok] at hfive
  cases hfive

end Normalizer

end LinearInterchange
