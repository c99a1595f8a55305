import LinearInterchange.Instance.ThreeTerm
import LinearInterchange.Proofs.Declarations
import LinearInterchange.Proofs.Solutions

/-!
# Sums of two terms as auxiliary variables

A split replaces two terms by an auxiliary variable, which an equality defines as their sum over
the least common denominator.  `PairSum.Represents` collects what the numbers of that definition
have to satisfy, `represents_of_pairSum` says that computed ones do, and `conservative_pairSum`
that replacing the two terms is a conservative extension.
-/

namespace LinearInterchange.Instance

/-! ## The numbers of a definition -/

/-- The numbers of the definition stand for the sum of two terms over two domains. -/
structure PairSum.Represents (p : PairSum) (first second : Term) (dom₁ dom₂ : Domain) :
    Prop where
  /-- The factor is the least common denominator. -/
  denominator_eq : p.denominator = first.coeff.val.den.lcm second.coeff.val.den
  /-- The factor is a word. -/
  denominator_fits : FitsWord p.denominator
  /-- Scaling keeps the first variable. -/
  first_var : p.first.var = first.var
  /-- Scaling keeps the second variable. -/
  second_var : p.second.var = second.var
  /-- The first coefficient is scaled exactly. -/
  first_val : p.first.coeff.val = first.coeff.val * p.denominator
  /-- The second coefficient is scaled exactly. -/
  second_val : p.second.coeff.val = second.coeff.val * p.denominator
  /-- The first coefficient becomes an integer. -/
  first_integer : p.first.coeff.isInteger = true
  /-- The second coefficient becomes an integer. -/
  second_integer : p.second.coeff.isInteger = true
  /-- The domain begins at the sum of the least values. -/
  least_eq : (p.domain.least.toInt : ℚ) = p.first.lowest dom₁ + p.second.lowest dom₂
  /-- The domain ends at the sum of the greatest values. -/
  greatest_eq : (p.domain.greatest.toInt : ℚ) = p.first.highest dom₁ + p.second.highest dom₂

/-- The equality that defines an auxiliary variable. -/
def PairSum.definition (p : PairSum) (aux : Var) : LinConstraint :=
  ⟨[p.first, p.second, ⟨Coeff.ofWord (-1), aux⟩], .eq, 0⟩

/-- The domain between the ends of two ranges added up has the sums of these ends for its own. -/
lemma ends_of_add {lo₁ hi₁ lo₂ hi₂ lo hi : Coeff} {d : Domain}
    (hlo : lo₁.add lo₂ = .ok lo) (hhi : hi₁.add hi₂ = .ok hi)
    (hd : Domain.ofBounds lo.truncate hi.truncate = .ok d)
    (hloInt : lo.isInteger = true) (hhiInt : hi.isInteger = true) :
    (d.least.toInt : ℚ) = lo₁.val + lo₂.val ∧ (d.greatest.toInt : ℚ) = hi₁.val + hi₂.val := by
  obtain ⟨rfl, -⟩ := Domain.ofBounds_ok hd
  exact ⟨(Coeff.toInt_truncate hloInt).trans (Coeff.val_of_add hlo),
    (Coeff.toInt_truncate hhiInt).trans (Coeff.val_of_add hhi)⟩

/-- Numbers that were computed without an overflow stand for the sum. -/
lemma represents_of_pairSum {first second : Term} {dom₁ dom₂ : Domain} {p : PairSum}
    (h : pairSum first second dom₁ dom₂ = .ok p) : p.Represents first second dom₁ dom₂ := by
  unfold pairSum at h
  cases hl : Coeff.lcm? first.coeff.val.den second.coeff.val.den with
  | none => simp [hl] at h
  | some l =>
    obtain ⟨heq, hfits⟩ := Coeff.lcm?_eq_some hl
    simp only [hl] at h
    obtain ⟨c₁, hc₁, h⟩ := bind_eq_ok.1 h
    obtain ⟨c₂, hc₂, h⟩ := bind_eq_ok.1 h
    obtain ⟨⟨lo₁, hi₁⟩, hrange₁, h⟩ := bind_eq_ok.1 h
    obtain ⟨⟨lo₂, hi₂⟩, hrange₂, h⟩ := bind_eq_ok.1 h
    obtain ⟨lo, hlo, h⟩ := bind_eq_ok.1 h
    obtain ⟨hi, hhi, h⟩ := bind_eq_ok.1 h
    obtain ⟨d, hd, h⟩ := bind_eq_ok.1 h
    cases h
    -- the denominator of the sum is a multiple of both, so the products with it are integral
    have hint₁ : c₁.isInteger = true :=
      Coeff.isInteger_of_mul_ofNat hfits (heq ▸ Nat.dvd_lcm_left _ _) hc₁
    have hint₂ : c₂.isInteger = true :=
      Coeff.isInteger_of_mul_ofNat hfits (heq ▸ Nat.dvd_lcm_right _ _) hc₂
    obtain ⟨hloInt₁, hhiInt₁⟩ := Term.isInteger_valueRange hrange₁ hint₁
    obtain ⟨hloInt₂, hhiInt₂⟩ := Term.isInteger_valueRange hrange₂ hint₂
    obtain ⟨hlo₁, hhi₁⟩ := Term.valueRange_ok hrange₁
    obtain ⟨hlo₂, hhi₂⟩ := Term.valueRange_ok hrange₂
    obtain ⟨hleast, hgreatest⟩ := ends_of_add hlo hhi hd
      (Coeff.isInteger_of_add hloInt₁ hloInt₂ hlo) (Coeff.isInteger_of_add hhiInt₁ hhiInt₂ hhi)
    exact {
      denominator_eq := heq
      denominator_fits := hfits
      first_var := rfl
      second_var := rfl
      first_val := by rw [Coeff.val_of_mul hc₁, Coeff.val_ofWord_ofNat hfits]
      second_val := by rw [Coeff.val_of_mul hc₂, Coeff.val_ofWord_ofNat hfits]
      first_integer := hint₁
      second_integer := hint₂
      least_eq := by rw [hleast, hlo₁, hlo₂]
      greatest_eq := by rw [hgreatest, hhi₁, hhi₂] }

/-- The reciprocal of a positive word is exact. -/
lemma val_unitFraction {l : ℕ} (hpos : 0 < l) (hfits : FitsWord l) :
    (unitFraction l).val = (l : ℚ)⁻¹ := by
  have hval : mkRat 1 l = (l : ℚ)⁻¹ := by
    rw [Rat.mkRat_eq_div, Int.cast_one, one_div]
  have hcoeff : FitsCoeff (l : ℚ)⁻¹ := by
    refine ⟨?_, ?_⟩
    · rw [Rat.inv_natCast_num_of_pos hpos]; decide
    · rw [Rat.inv_natCast_den_of_pos hpos]; exact hfits
  unfold unitFraction Coeff.ofRat?
  rw [hval, dif_pos hcoeff, Option.getD_some]

namespace PairSum.Represents

variable {p : PairSum} {first second : Term} {dom₁ dom₂ : Domain} {value : Var → ℤ} {aux : Var}

/-- The domain holds all values of the sum. -/
lemma includes (h : p.Represents first second dom₁ dom₂) {x y n : ℤ} (hx : dom₁.Includes x)
    (hy : dom₂.Includes y) (hn : (n : ℚ) = p.first.coeff.val * x + p.second.coeff.val * y) :
    p.domain.Includes n := by
  have hfirst := p.first.lowest_le_highest hx
  have hsecond := p.second.lowest_le_highest hy
  constructor
  · rw [← Int.cast_le (R := ℚ), h.least_eq, hn]
    exact add_le_add hfirst.1 hsecond.1
  · rw [← Int.cast_le (R := ℚ), h.greatest_eq, hn]
    exact add_le_add hfirst.2 hsecond.2

lemma denominator_pos (h : p.Represents first second dom₁ dom₂) : 0 < p.denominator := by
  rw [h.denominator_eq]
  exact Nat.lcm_pos first.coeff.val.den_pos second.coeff.val.den_pos

/-- The definition holds when the auxiliary variable has the value of the scaled sum. -/
lemma holdsAt_definition_iff (h : p.Represents first second dom₁ dom₂) :
    (p.definition aux).HoldsAt value ↔ (value aux : ℚ) =
      p.first.coeff.val * value first.var + p.second.coeff.val * value second.var := by
  have hneg : (Coeff.ofWord (-1)).val = -1 := by decide
  simp only [PairSum.definition, LinConstraint.HoldsAt, Relation.Compares, Term.sumAt_cons,
    Term.sumAt_nil, Coeff.val_zero, hneg, h.first_var, h.second_var]
  constructor
  · intro heq
    linarith
  · intro heq
    linarith

/-- Where the definition holds, the auxiliary variable in place of the two terms leaves the value
of a sum as it is. -/
lemma sumAt_replace (h : p.Represents first second dom₁ dom₂)
    (hdef : (p.definition aux).HoldsAt value) (rest : List Term) :
    Term.sumAt value (⟨unitFraction p.denominator, aux⟩ :: rest) =
      Term.sumAt value (first :: second :: rest) := by
  have hne : (p.denominator : ℚ) ≠ 0 := Nat.cast_ne_zero.2 h.denominator_pos.ne'
  have hfirst : (p.denominator : ℚ)⁻¹ * p.first.coeff.val = first.coeff.val := by
    rw [h.first_val]
    field_simp
  have hsecond : (p.denominator : ℚ)⁻¹ * p.second.coeff.val = second.coeff.val := by
    rw [h.second_val]
    field_simp
  simp only [Term.sumAt_cons]
  rw [val_unitFraction h.denominator_pos h.denominator_fits, h.holdsAt_definition_iff.1 hdef,
    mul_add, ← mul_assoc, ← mul_assoc, hfirst, hsecond, add_assoc]

/-- Where the definition holds, a constraint with the auxiliary variable in place of the two terms
means the same. -/
lemma holdsAt_replace_iff (h : p.Represents first second dom₁ dom₂)
    (hdef : (p.definition aux).HoldsAt value) {rest : List Term} {rel : Relation} {rhs : Coeff} :
    LinConstraint.HoldsAt value ⟨⟨unitFraction p.denominator, aux⟩ :: rest, rel, rhs⟩ ↔
      LinConstraint.HoldsAt value ⟨first :: second :: rest, rel, rhs⟩ := by
  rw [LinConstraint.HoldsAt, LinConstraint.HoldsAt, h.sumAt_replace hdef]

/-- The scaled sum has an integer value. -/
lemma exists_value (h : p.Represents first second dom₁ dom₂) (x y : ℤ) :
    ∃ n : ℤ, (n : ℚ) = p.first.coeff.val * x + p.second.coeff.val * y := by
  obtain ⟨a, ha⟩ := Coeff.isInteger_iff.1 h.first_integer
  obtain ⟨b, hb⟩ := Coeff.isInteger_iff.1 h.second_integer
  exact ⟨a * x + b * y, by rw [ha, hb]; push_cast; rfl⟩

end PairSum.Represents

/-! ## Replacing two terms -/

/-- **Replacing two terms by a new auxiliary variable with its definition is a conservative
extension.**  The definition determines the value of the variable, and that value lies in its
domain. -/
lemma conservative_pairSum {vars : List Variable} {x y aux : Variable} {first second : Term}
    {p : PairSum} {rest : List Term} {rel : Relation} {rhs : Coeff}
    (hx : x ∈ vars) (hy : y ∈ vars) (hfirst : x.var = first.var) (hsecond : y.var = second.var)
    (hp : p.Represents first second x.domain y.domain) (hdom : aux.domain = p.domain)
    (hnew : aux.var ∉ vars.map (·.var)) (hrest : ∀ t ∈ rest, t.var ≠ aux.var) :
    Conservative vars [⟨first :: second :: rest, rel, rhs⟩] [aux]
      [p.definition aux.var, ⟨⟨unitFraction p.denominator, aux.var⟩ :: rest, rel, rhs⟩] := by
  have hfirst_ne : first.var ≠ aux.var := fun h =>
    hnew (h ▸ hfirst ▸ List.mem_map_of_mem hx)
  have hsecond_ne : second.var ≠ aux.var := fun h =>
    hnew (h ▸ hsecond ▸ List.mem_map_of_mem hy)
  have havoid : ∀ t ∈ first :: second :: rest, t.var ≠ aux.var := by
    rw [List.forall_mem_cons, List.forall_mem_cons]
    exact ⟨hfirst_ne, hsecond_ne, hrest⟩
  constructor
  case extend =>
    intro value hin hold
    -- the definition fixes the value of the new variable; the old variables keep theirs
    obtain ⟨n, hn⟩ := hp.exists_value (value first.var) (value second.var)
    have hoff : ∀ v, v ≠ aux.var → Function.update value aux.var n v = value v :=
      fun v hv => Function.update_of_ne hv _ _
    have hdef : (p.definition aux.var).HoldsAt (Function.update value aux.var n) := by
      rw [hp.holdsAt_definition_iff, Function.update_self, hoff _ hfirst_ne, hoff _ hsecond_ne]
      exact hn
    refine ⟨Function.update value aux.var n, ?_, ?_, ?_⟩
    · intro v hv
      exact hoff v (by simpa using hv)
    · intro z hz
      rw [List.mem_singleton] at hz
      subst hz
      rw [Function.update_self, hdom]
      exact hp.includes (hfirst ▸ hin x hx) (hsecond ▸ hin y hy) hn
    · intro c hc
      rcases List.mem_cons.1 hc with rfl | hc
      · exact hdef
      · rw [List.mem_singleton] at hc
        subst hc
        exact (hp.holdsAt_replace_iff hdef).2
          ((allHold_singleton.1 hold).congr fun t ht => hoff _ (havoid t ht))
  case determined =>
    intro value other hvalue hother heq z hz
    rw [List.mem_singleton] at hz
    subst hz
    have hv := hp.holdsAt_definition_iff.1 (hvalue _ List.mem_cons_self)
    have ho := hp.holdsAt_definition_iff.1 (hother _ List.mem_cons_self)
    rw [← hfirst, ← hsecond] at hv ho
    rw [heq x hx, heq y hy, ← ho] at hv
    exact Int.cast_injective hv
  case restrict =>
    intro value hnew
    have hdef := hnew _ List.mem_cons_self
    have hlast := hnew _ (List.mem_cons_of_mem _ List.mem_cons_self)
    exact allHold_singleton.2 ((hp.holdsAt_replace_iff hdef).1 hlast)

end LinearInterchange.Instance
