import LinearInterchange.Proofs.SplitBlocks
import LinearInterchange.Proofs.SumRanges

/-!
# The auxiliary variables of a split in closed form

A split works on the first two terms that are left and knows nothing of those before.  Still, the
auxiliary variable of a step is a multiple of the sum of all merged terms up to the second one of
the step: the least common multiple of their denominators times their sum, and its domain is the
range of that.  The invariant is `Remainder`: after `k` steps, the first of the terms that are left
stands for the sum of the first `k + 1` merged terms, in the denominator of its coefficient and in
its least and greatest value (`StandsFor`).  `Remainder.step` carries it through a step.
-/

namespace LinearInterchange

/-- The least common multiple of the denominators of the coefficients of terms. -/
def Term.denominator (ts : List Term) : ℕ :=
  Coeff.commonDenominator (ts.map (·.coeff))

lemma Term.denominator_pos (ts : List Term) : 0 < Term.denominator ts :=
  Coeff.commonDenominator_pos _

/-- One term more is one denominator more. -/
lemma Term.denominator_concat (ts : List Term) (t : Term) :
    Term.denominator (ts ++ [t]) = (Term.denominator ts).lcm t.coeff.val.den := by
  rw [denominator, List.map_append, List.map_singleton, Coeff.commonDenominator_concat]
  rfl

/-- The values of a sum of terms, times the least common multiple of their denominators. -/
def Term.scaledValues (vars : List Variable) (ts : List Term) : Set ℚ :=
  (fun q : ℚ => Term.denominator ts * q) '' Term.valuesOver vars ts

/-- The constraint has the given products, relation and right-hand side, in the order of its terms
and by value. -/
def LinConstraint.Reads (c : LinConstraint) (products : List (ℚ × Var)) (rel : Relation)
    (rhs : ℚ) : Prop :=
  c.terms.map (fun t => (t.coeff.val, t.var)) = products ∧ c.rel = rel ∧ c.rhs.val = rhs

namespace Instance

variable {base vars aux : List Variable} {rel : Relation} {rhs : Coeff} {ms pre : List Term}
  {head t : Term} {block : List LinConstraint} {k : ℕ}

/-! ## Definitions by value -/

/-- Scaling a term by a positive number scales its ends. -/
lemma ends_of_scaled {s t : Term} {l : ℕ} (hl : 0 < l) (h : s.coeff.val = t.coeff.val * l)
    (d : Domain) : s.lowest d = l * t.lowest d ∧ s.highest d = l * t.highest d := by
  have hpos : (0 : ℚ) < l := Nat.cast_pos.2 hl
  have hsign : s.coeff.isNegative = t.coeff.isNegative := by
    rw [Bool.eq_iff_iff, Coeff.isNegative_iff, Coeff.isNegative_iff, h]
    exact ⟨fun hneg => neg_of_mul_neg_left hneg hpos.le,
      fun hneg => mul_neg_of_neg_of_pos hneg hpos⟩
  constructor
  · rw [Term.lowest, Term.lowest, hsign, h, mul_comm t.coeff.val, mul_assoc]
  · rw [Term.highest, Term.highest, hsign, h, mul_comm t.coeff.val, mul_assoc]

namespace PairSum.Represents

variable {p : PairSum} {first second : Term} {dom₁ dom₂ : Domain}

/-- The definition by value. -/
lemma reads_definition (h : p.Represents first second dom₁ dom₂) (aux : Var) :
    (p.definition aux).Reads [(p.denominator * first.coeff.val, first.var),
      (p.denominator * second.coeff.val, second.var), (-1, aux)] .eq 0 := by
  have hneg : (Coeff.ofWord (-1)).val = -1 := by decide
  refine ⟨?_, rfl, Coeff.val_zero⟩
  simp only [PairSum.definition, List.map_cons, List.map_nil, h.first_val, h.second_val,
    h.first_var, h.second_var, hneg, mul_comm]

/-- The domain of the auxiliary variable lies between the scaled ends of the two terms. -/
lemma ends_domain (h : p.Represents first second dom₁ dom₂) :
    (p.domain.least.toInt : ℚ) = p.denominator * (first.lowest dom₁ + second.lowest dom₂) ∧
    (p.domain.greatest.toInt : ℚ) =
      p.denominator * (first.highest dom₁ + second.highest dom₂) := by
  obtain ⟨hlow₁, hhigh₁⟩ := ends_of_scaled h.denominator_pos h.first_val dom₁
  obtain ⟨hlow₂, hhigh₂⟩ := ends_of_scaled h.denominator_pos h.second_val dom₂
  rw [h.least_eq, h.greatest_eq, hlow₁, hlow₂, hhigh₁, hhigh₂, mul_add, mul_add]
  exact ⟨rfl, rfl⟩

/-- The term that goes on with the auxiliary variable has the ends of the two terms. -/
lemma ends_unitFraction (h : p.Represents first second dom₁ dom₂) (aux : Var) :
    Term.lowest ⟨unitFraction p.denominator, aux⟩ p.domain =
      first.lowest dom₁ + second.lowest dom₂ ∧
    Term.highest ⟨unitFraction p.denominator, aux⟩ p.domain =
      first.highest dom₁ + second.highest dom₂ := by
  have hval := val_unitFraction h.denominator_pos h.denominator_fits
  have hpos : (0 : ℚ) < p.denominator := Nat.cast_pos.2 h.denominator_pos
  have hsign : (unitFraction p.denominator).isNegative = false := by
    rw [Bool.eq_false_iff, ne_eq, Coeff.isNegative_iff, hval, not_lt]
    exact (inv_pos.2 hpos).le
  obtain ⟨hleast, hgreatest⟩ := h.ends_domain
  simp only [Term.lowest, Term.highest, hsign, hval, Bool.false_eq_true, if_false]
  rw [hleast, hgreatest]
  exact ⟨inv_mul_cancel_left₀ hpos.ne' _, inv_mul_cancel_left₀ hpos.ne' _⟩

end PairSum.Represents

/-! ## What a term stands for -/

/-- The term stands for the sum of terms: the denominator of its coefficient is their common one,
and over the domain of its variable it ranges as they do over the domains of theirs. -/
structure StandsFor (base vars : List Variable) (head : Term) (pre : List Term) : Prop where
  /-- The denominator is the common one. -/
  den_eq : head.coeff.val.den = Term.denominator pre
  /-- The range is that of the sum. -/
  spans : ∀ x ∈ vars, x.var = head.var →
    Term.Spans base pre (head.lowest x.domain) (head.highest x.domain)

/-- The variables over which a split works: the declared ones come first, none is declared twice and
none of the declared ones has an empty domain. -/
structure Scope (base vars : List Variable) : Prop where
  /-- The declared variables come first. -/
  base_prefix : base <+: vars
  /-- Variables are different. -/
  nodup : (vars.map (·.var)).Nodup
  /-- The domains of declared variables hold values. -/
  nonempty : ∀ x ∈ base, x.domain.Nonempty

namespace Scope

lemma eq_of_var (h : Scope base vars) {x y : Variable} (hx : x ∈ vars) (hy : y ∈ vars)
    (hxy : x.var = y.var) : x = y :=
  List.inj_on_of_nodup_map h.nodup hx hy hxy

/-- The range of a term over a declared variable is that of its values. -/
lemma spans_singleton (h : Scope base vars) (ht : t.var ∈ base.map (·.var)) {y : Variable}
    (hy : y ∈ vars) (hyt : y.var = t.var) :
    Term.Spans base [t] (t.lowest y.domain) (t.highest y.domain) := by
  obtain ⟨z, hz, hzt⟩ := List.mem_map.1 ht
  obtain rfl := h.eq_of_var hy (h.base_prefix.subset hz) (hyt.trans hzt.symm)
  exact Term.spans_singleton (h.nodup.sublist (h.base_prefix.sublist.map _)) h.nonempty hz hzt

/-- A term over a declared variable stands for itself. -/
lemma standsFor_singleton (h : Scope base vars) (ht : t.var ∈ base.map (·.var)) :
    StandsFor base vars t [t] where
  den_eq := by simp [Term.denominator, Coeff.commonDenominator]
  spans _ hx hxt := h.spans_singleton ht hx hxt

end Scope

/-- The auxiliary variable of a step stands for one term more. -/
lemma StandsFor.concat (hs : StandsFor base vars head pre) (hscope : Scope base vars)
    (ht : t.var ∈ base.map (·.var)) (hnew : t.var ∉ pre.map (·.var)) {x y a : Variable}
    {p : PairSum} (hx : x ∈ vars) (hxv : x.var = head.var) (hy : y ∈ vars) (hyv : y.var = t.var)
    (hp : p.Represents head t x.domain y.domain) (ha : a ∈ vars) (had : a.domain = p.domain) :
    StandsFor base vars ⟨unitFraction p.denominator, a.var⟩ (pre ++ [t]) where
  den_eq := by
    rw [val_unitFraction hp.denominator_pos hp.denominator_fits,
      Rat.inv_natCast_den_of_pos hp.denominator_pos, hp.denominator_eq, hs.den_eq,
      Term.denominator_concat]
  spans z hz hza := by
    obtain rfl := hscope.eq_of_var hz ha hza
    obtain ⟨hlow, hhigh⟩ := hp.ends_unitFraction z.var
    rw [had, hlow, hhigh]
    exact (hs.spans x hx hxv).concat (hscope.spans_singleton ht hy hyv) hnew

/-! ## Steps -/

/-- What is left of a list after some of its elements begins with the next one. -/
lemma next_of_drop {α : Type*} {l rest : List α} {x : α} (h : l.drop k = x :: rest) :
    l[k]? = some x ∧ l.drop (k + 1) = rest ∧ l.take (k + 1) = l.take k ++ [x] := by
  have hget : l[k]? = some x := by rw [← List.head?_drop, h, List.head?_cons]
  refine ⟨hget, ?_, ?_⟩
  · rw [← List.tail_drop, h, List.tail_cons]
  · rw [List.take_add_one, hget, Option.toList_some]

/-- After `k` steps the first term that is left, together with the merged terms after the first
`k + 1` ones, gives the rest of the chain. -/
structure Remainder (base vars : List Variable) (rel : Relation) (rhs : Coeff) (ms : List Term)
    (aux : List Variable) (block : List LinConstraint) (k : ℕ) (head : Term) : Prop where
  /-- The rest of the chain. -/
  chain : Chain vars rel rhs (head :: ms.drop (k + 1)) (aux.drop k) (block.drop k)
  /-- The first term stands for those that are gone. -/
  stands : StandsFor base vars head (ms.take (k + 1))

/-- The constraint defines the variable as the common denominator times the sum of a term and the
next one, and the domain of the variable has the ends of the sum of all terms so far. -/
structure Defines (base : List Variable) (ms : List Term) (k : ℕ) (head : Term) (a : Variable)
    (d : LinConstraint) : Prop where
  /-- The definition by value. -/
  reads : ∀ t, ms[k + 1]? = some t →
    d.Reads [(Term.denominator (ms.take (k + 2)) * head.coeff.val, head.var),
      (Term.denominator (ms.take (k + 2)) * t.coeff.val, t.var), (-1, a.var)] .eq 0
  /-- The definition has integers only. -/
  integral : d.isIntegral = true
  /-- The domain begins at the least value of the multiple of the sum. -/
  least : IsLeast (Term.scaledValues base (ms.take (k + 2))) a.domain.least.toInt
  /-- The domain ends at the greatest value of the multiple of the sum. -/
  greatest : IsGreatest (Term.scaledValues base (ms.take (k + 2))) a.domain.greatest.toInt

/-- The term that goes on with an auxiliary variable. -/
def carried (ms : List Term) (k : ℕ) (a : Variable) : Term :=
  ⟨unitFraction (Term.denominator (ms.take (k + 2))), a.var⟩

/-- **A step of a split.**  A further auxiliary variable is defined, and the term that goes on with
it stands for one term more. -/
lemma Remainder.step (h : Remainder base vars rel rhs ms aux block k head)
    (hscope : Scope base vars) (hms : ∀ t ∈ ms, t.var ∈ base.map (·.var))
    (hnodup : (ms.map (·.var)).Nodup) (hk : k < aux.length) :
    ∃ a d, aux[k]? = some a ∧ block[k]? = some d ∧ Defines base ms k head a d ∧
      FitsWord (Term.denominator (ms.take (k + 2))) ∧
      Remainder base vars rel rhs ms aux block (k + 1) (carried ms k a) := by
  obtain ⟨chain, hs⟩ := h
  generalize hts : head :: ms.drop (k + 1) = ts at chain
  generalize haux : aux.drop k = later at chain
  generalize hblock : block.drop k = others at chain
  cases chain with
  | stop =>
    have := List.drop_eq_nil_iff.1 haux
    omega
  | @fold _ t rest x y a p aux' block' many hx hxv hy hyv hsum ha had fresh tail =>
    obtain ⟨rfl, hdrop⟩ := List.cons.inj hts
    have hp := represents_of_pairSum hsum
    obtain ⟨hget, hdrop', htake⟩ := next_of_drop hdrop
    obtain ⟨haux, haux', -⟩ := next_of_drop haux
    obtain ⟨hblock, hblock', -⟩ := next_of_drop hblock
    have ht : t.var ∈ base.map (·.var) := hms t (List.mem_of_getElem? hget)
    -- merged terms are over different variables, so the next one is over none of those before
    have hnew : t.var ∉ (ms.take (k + 1)).map (·.var) := by
      have hsub := hnodup.sublist ((List.take_sublist (k + 2) ms).map _)
      rw [htake, List.map_append, List.map_singleton] at hsub
      exact fun hmem => List.disjoint_of_nodup_append hsub hmem List.mem_cons_self
    have hden : p.denominator = Term.denominator (ms.take (k + 2)) := by
      rw [hp.denominator_eq, hs.den_eq, htake, Term.denominator_concat]
    have hstands := hs.concat hscope ht hnew hx hxv hy hyv hp ha had
    have hspans := (hs.spans x hx hxv).concat (hscope.spans_singleton ht hy hyv) hnew
    have hmono : Monotone ((Term.denominator (ms.take (k + 2)) : ℚ) * ·) :=
      monotone_mul_left_of_nonneg (Nat.cast_nonneg _)
    obtain ⟨hleast, hgreatest⟩ := hp.ends_domain
    rw [← htake] at hstands hspans
    rw [hden] at hleast hgreatest hstands tail
    refine ⟨a, p.definition a.var, haux, hblock, ?_, hden ▸ hp.denominator_fits, ?_⟩
    · constructor
      case reads =>
        intro u hu
        obtain rfl := Option.some.inj (hget.symm.trans hu)
        exact hden ▸ hp.reads_definition a.var
      case integral => exact hp.isIntegral_definition a.var
      case least =>
        rw [had, hleast]
        exact hmono.map_isLeast hspans.least
      case greatest =>
        rw [had, hgreatest]
        exact hmono.map_isGreatest hspans.greatest
    · constructor
      case chain => rwa [carried, hdrop', haux', hblock']
      case stands => exact hstands

/-- After all steps one constraint is left, over the terms that are left. -/
lemma Remainder.last (h : Remainder base vars rel rhs ms aux block aux.length head) :
    block[aux.length]? = some ⟨head :: ms.drop (aux.length + 1), rel, rhs⟩ := by
  obtain ⟨chain, -⟩ := h
  rw [List.drop_length] at chain
  generalize head :: ms.drop (aux.length + 1) = ts at chain ⊢
  generalize hblock : block.drop aux.length = others at chain
  cases chain
  exact (next_of_drop hblock).1

/-! ## Runs -/

/-- The first term that is left after `k` steps. -/
def headAt (ms : List Term) (aux : List Variable) : ℕ → Option Term
  | 0 => ms[0]?
  | k + 1 => aux[k]?.map (carried ms k)

/-- **The run of a split.**  After any number of steps the rest of the chain begins with a term that
stands for those that are gone. -/
lemma Chain.remainder (h : Chain vars rel rhs ms aux block) (hscope : Scope base vars)
    (hms : ∀ t ∈ ms, t.var ∈ base.map (·.var)) (hnodup : (ms.map (·.var)).Nodup)
    (hne : ms ≠ []) (hk : k ≤ aux.length) :
    ∃ head, headAt ms aux k = some head ∧ Remainder base vars rel rhs ms aux block k head := by
  induction k with
  | zero =>
    obtain ⟨first, rest, rfl⟩ := List.exists_cons_of_ne_nil hne
    exact ⟨first, rfl, h, hscope.standsFor_singleton (hms first List.mem_cons_self)⟩
  | succ k ih =>
    obtain ⟨head, -, hrem⟩ := ih (Nat.le_of_succ_le hk)
    obtain ⟨a, d, ha, -, -, -, hnext⟩ := hrem.step hscope hms hnodup hk
    exact ⟨carried ms k a, by rw [headAt, ha, Option.map_some], hnext⟩

/-! ## The closed form -/

/-- The block of a constraint `c₁ x₁ + ... + cₙ xₙ rel rhs` that is split, in closed form.  Here
`ms` are the terms `cᵢ xᵢ`, the auxiliary variables of the block are `a₁, ..., aₙ₋₃`, and `Lₖ`, the
least common multiple of the denominators of `c₁, ..., cₖ₊₁`, is that of `ms.take (k + 1)`.  Lists
are counted from zero. -/
structure ClosedForm (base : List Variable) (ms : List Term) (rel : Relation) (rhs : ℚ)
    (b : Block) : Prop where
  /-- There is an auxiliary variable for each term beyond the third. -/
  length_aux : b.aux.length + 3 = ms.length
  /-- There is a definition for each of them, and one constraint beside these. -/
  length_constrs : b.constrs.length + 2 = ms.length
  /-- The first definition is `L₁ c₁ x₁ + L₁ c₂ x₂ - a₁ = 0`. -/
  first : ∀ {s t : Term} {a : Variable} {d : LinConstraint},
    ms[0]? = some s → ms[1]? = some t → b.aux[0]? = some a → b.constrs[0]? = some d →
    d.Reads [(Term.denominator (ms.take 2) * s.coeff.val, s.var),
      (Term.denominator (ms.take 2) * t.coeff.val, t.var), (-1, a.var)] .eq 0
  /-- The others are `Lₖ / Lₖ₋₁ aₖ₋₁ + Lₖ cₖ₊₁ xₖ₊₁ - aₖ = 0`. -/
  next : ∀ {k : ℕ} {t : Term} {a a' : Variable} {d : LinConstraint},
    ms[k + 2]? = some t → b.aux[k]? = some a → b.aux[k + 1]? = some a' →
    b.constrs[k + 1]? = some d →
    d.Reads [(Term.denominator (ms.take (k + 3)) / Term.denominator (ms.take (k + 2)), a.var),
      (Term.denominator (ms.take (k + 3)) * t.coeff.val, t.var), (-1, a'.var)] .eq 0
  /-- Definitions have integers only. -/
  integral : ∀ {k : ℕ} {d : LinConstraint},
    k < b.aux.length → b.constrs[k]? = some d → d.isIntegral = true
  /-- The last constraint is `1 / Lₙ₋₃ aₙ₋₃ + cₙ₋₁ xₙ₋₁ + cₙ xₙ rel rhs`. -/
  last : ∀ {k : ℕ} {s t : Term} {a : Variable} {d : LinConstraint},
    b.aux.length = k + 1 → ms[k + 2]? = some s → ms[k + 3]? = some t → b.aux[k]? = some a →
    b.constrs[k + 1]? = some d →
    d.Reads [(1 / Term.denominator (ms.take (k + 2)), a.var), (s.coeff.val, s.var),
      (t.coeff.val, t.var)] rel rhs
  /-- The domain of `aₖ` begins at the least value of `Lₖ (c₁ x₁ + ... + cₖ₊₁ xₖ₊₁)`. -/
  least : ∀ {k : ℕ} {a : Variable}, b.aux[k]? = some a →
    IsLeast (Term.scaledValues base (ms.take (k + 2))) a.domain.least.toInt
  /-- The domain of `aₖ` ends at the greatest one. -/
  greatest : ∀ {k : ℕ} {a : Variable}, b.aux[k]? = some a →
    IsGreatest (Term.scaledValues base (ms.take (k + 2))) a.domain.greatest.toInt

/-- The coefficient of a term that goes on is the reciprocal of the common denominator. -/
lemma val_carried (hfits : FitsWord (Term.denominator (ms.take (k + 2)))) (a : Variable) :
    (carried ms k a).coeff.val = (Term.denominator (ms.take (k + 2)) : ℚ)⁻¹ :=
  val_unitFraction (Term.denominator_pos _) hfits

/-- The chain of a constraint with more than three merged terms has the closed form. -/
lemma Chain.closedForm (h : Chain vars rel rhs ms aux block) (hscope : Scope base vars)
    (hms : ∀ t ∈ ms, t.var ∈ base.map (·.var)) (hnodup : (ms.map (·.var)).Nodup)
    (hlong : maxTerms < ms.length) : ClosedForm base ms rel rhs.val ⟨aux, block⟩ := by
  have hne : ms ≠ [] := List.ne_nil_of_length_pos (Nat.zero_lt_of_lt hlong)
  have hlength : aux.length + 3 = ms.length := by
    rw [h.length_aux, maxTerms] at *
    omega
  -- one step, with what the chain says about its number
  have hstep : ∀ {k a}, aux[k]? = some a → ∃ head d, headAt ms aux k = some head ∧
      block[k]? = some d ∧ Defines base ms k head a d ∧
      FitsWord (Term.denominator (ms.take (k + 2))) := by
    intro k a ha
    have hk : k < aux.length := (List.getElem?_eq_some_iff.1 ha).1
    obtain ⟨head, hhead, hrem⟩ := h.remainder hscope hms hnodup hne hk.le
    obtain ⟨a', d, ha', hd, hdef, hfits, -⟩ := hrem.step hscope hms hnodup hk
    obtain rfl := Option.some.inj (ha.symm.trans ha')
    exact ⟨head, d, hhead, hd, hdef, hfits⟩
  constructor
  case length_aux => exact hlength
  case length_constrs =>
    rw [h.length_block]
    omega
  case first =>
    intro s t a d hs ht ha hd
    obtain ⟨head, d', hhead, hd', hdef, -⟩ := hstep ha
    obtain rfl := Option.some.inj (hd.symm.trans hd')
    obtain rfl := Option.some.inj (hs.symm.trans hhead)
    exact hdef.reads t ht
  case next =>
    intro k t a a' d ht ha ha' hd
    obtain ⟨-, -, -, -, -, hfits⟩ := hstep ha
    obtain ⟨head, d', hhead, hd', hdef, -⟩ := hstep ha'
    obtain rfl := Option.some.inj (hd.symm.trans hd')
    rw [headAt, ha, Option.map_some] at hhead
    obtain rfl := Option.some.inj hhead
    have hreads := hdef.reads t ht
    rwa [val_carried hfits] at hreads
  case integral =>
    intro k d hk hd
    obtain ⟨_, d', -, hd', hdef, -⟩ := hstep (List.getElem?_eq_getElem hk)
    obtain rfl := Option.some.inj (hd.symm.trans hd')
    exact hdef.integral
  case last =>
    intro k s t a d hlen hs ht ha hd
    obtain ⟨-, -, -, -, -, hfits⟩ := hstep ha
    obtain ⟨head, hhead, hrem⟩ := h.remainder hscope hms hnodup hne le_rfl
    have hlast := hrem.last
    simp only at hlen
    rw [hlen, headAt, ha, Option.map_some] at hhead
    obtain rfl := Option.some.inj hhead
    rw [hlen] at hlast
    obtain rfl := Option.some.inj (hd.symm.trans hlast)
    have hrest : ms.drop (k + 1 + 1) = [s, t] := by
      have hnil : ms.drop (k + 4) = [] := List.drop_eq_nil_of_le (by omega)
      rw [List.drop_eq_getElem?_toList_append, hs, List.drop_eq_getElem?_toList_append, ht, hnil]
      rfl
    refine ⟨?_, rfl, rfl⟩
    rw [hrest, List.map_cons, val_carried hfits, one_div]
    rfl
  case least =>
    intro k a ha
    obtain ⟨_, _, -, -, hdef, -⟩ := hstep ha
    exact hdef.least
  case greatest =>
    intro k a ha
    obtain ⟨_, _, -, -, hdef, -⟩ := hstep ha
    exact hdef.greatest

/-- **Closed form of a split.**  If no domain is empty and a split succeeds, then the constraints of
the split instance are blocks in the order of the constraints that they stand for, the auxiliary
variables of the blocks come after all other variables and are new, and the block of a constraint
with more than three merged terms has the closed form. -/
theorem splitConstrs_closedForm {inst inst' : Instance} (hreg : inst.Registered)
    (hcs : ∀ c ∈ inst.constrs, inst.DeclaresAll c.terms)
    (hdom : ∀ x ∈ inst.vars, x.domain.Nonempty) {stats : SplitStats}
    (h : inst.splitConstrs = (inst', .ok stats)) :
    ∃ bs : List Block, inst'.constrs = bs.flatMap Block.constrs ∧
      inst'.vars = inst.vars ++ bs.flatMap Block.aux ∧
      (∀ a ∈ bs.flatMap Block.aux, a.origin = .auxiliary) ∧ (inst'.vars.map (·.var)).Nodup ∧
      List.Forall₂ (fun c b => ∃ ms, c.merged = .ok ms ∧
        (3 < ms.length → ClosedForm inst.vars ms c.rel c.rhs.val b)) inst.constrs bs := by
  obtain ⟨bs, hgrow, hreg', hbs, -⟩ := replaces_splitConstrs hreg hcs h
  have hscope : Scope inst.vars inst'.vars := ⟨hgrow.prefix_vars, hreg'.nodup_ids, hdom⟩
  refine ⟨bs, hgrow.constrs_eq, hgrow.vars_eq, fun a ha => (hgrow.generated a ha).1,
    hreg'.nodup_ids, ?_⟩
  refine ((List.forall₂_and_left _ _).2 ⟨hcs, hbs⟩).imp ?_
  rintro c b ⟨hc, ms, hmerged, hb⟩
  refine ⟨ms, hmerged, fun hlong => ?_⟩
  have hms : ∀ t ∈ ms, t.var ∈ inst.vars.map (·.var) := by
    intro t ht
    obtain ⟨u, hu, hut⟩ := List.mem_map.1 (Term.mem_of_mem_merge hmerged ht)
    rw [← hut]
    exact hreg.declares_iff.1 (hc u hu)
  obtain ⟨hshort, -⟩ | ⟨-, hchain⟩ := hb
  · exact absurd hlong (not_lt.2 hshort)
  · exact hchain.closedForm hscope hms (Term.nodup_merge hmerged) hlong

/-- One constraint over five variables, with fractions of three denominators and a negative one. -/
def slanted : Instance :=
  { ofVariables [⟨⟨10, by decide⟩, "x", .range 0 3, .user⟩,
      ⟨⟨11, by decide⟩, "y", .range (-2) 2, .user⟩, ⟨⟨12, by decide⟩, "z", .bool, .user⟩,
      ⟨⟨13, by decide⟩, "w", .bool, .user⟩, ⟨⟨14, by decide⟩, "v", .bool, .user⟩] with
    constrs := [⟨[⟨⟨mkRat 5 2, by decide⟩, ⟨10, by decide⟩⟩,
      ⟨⟨mkRat (-4) 3, by decide⟩, ⟨11, by decide⟩⟩, ⟨⟨mkRat 3 4, by decide⟩, ⟨12, by decide⟩⟩,
      ⟨1, ⟨13, by decide⟩⟩, ⟨1, ⟨14, by decide⟩⟩], .ge, 1⟩] }

/-- The first auxiliary variable stands for `15 x - 8 y`, the second one for `30 x - 16 y + 9 z`,
and the last constraint has a twelfth of it. -/
theorem splitConstrs_closedForm_slanted : ∃ inst' b ms,
    slanted.splitConstrs = (inst', .ok ⟨1, 2⟩) ∧ inst'.constrs = b.constrs ∧
      ms = (slanted.constrs.flatMap (·.terms)) ∧ Term.denominator (ms.take 2) = 6 ∧
      Term.denominator (ms.take 3) = 12 ∧ ClosedForm slanted.vars ms .ge 1 b := by
  have hreg : slanted.Registered :=
    (registered_ofVariables (by decide) (by decide)).1.replace _ _ _
  have h : slanted.splitConstrs = (slanted.splitConstrs.1, .ok ⟨1, 2⟩) := by decide +kernel
  obtain ⟨bs, hconstrs, -, -, -, hbs⟩ := splitConstrs_closedForm hreg (by decide) (by decide) h
  obtain ⟨b, bs, ⟨ms, hmerged, hb⟩, hnil, rfl⟩ := List.forall₂_cons_left_iff.1 hbs
  obtain rfl := List.forall₂_nil_left_iff.1 hnil
  have hms : ms = slanted.constrs.flatMap (·.terms) :=
    Except.ok.inj (hmerged.symm.trans (by decide +kernel))
  subst hms
  have hform := hb (by decide)
  rw [Coeff.val_one] at hform
  exact ⟨_, b, _, h, by simpa using hconstrs, rfl, by decide +kernel, by decide +kernel, hform⟩

end Instance

end LinearInterchange
