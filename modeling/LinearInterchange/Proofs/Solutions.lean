import LinearInterchange.Instance.Basic
import LinearInterchange.Proofs.Merging

/-!
# Solutions and conservative extensions

A solution of an instance gives every declared variable a value of its domain such that all
constraints hold exactly.  Where the arithmetic of coefficients gives an answer to whether an
assignment satisfies constraints, it is this one (`Instance.isSatisfiedBy_eq_some`).  Constraints
`new` over further variables `aux` extend constraints `old` conservatively when solutions of `old`
extend to solutions of `new`, the values of `aux` are determined by the other variables, and
solutions of `new` solve `old`.

Conservative extensions compose (`Conservative.trans`) and can be made beside constraints that do
not mention the further variables (`Conservative.frame`); these two lemmas carry every argument
about a run that adds variables and constraints step by step.
-/

namespace LinearInterchange

/-! ## Solutions -/

/-- The comparison holds between two rational numbers. -/
def Relation.Compares (r : Relation) (lhs rhs : ℚ) : Prop :=
  match r with
  | le => lhs ≤ rhs
  | eq => lhs = rhs
  | ge => rhs ≤ lhs

/-- Multiplying both sides by a positive number keeps a comparison. -/
lemma Relation.compares_mul {r : Relation} {factor lhs rhs : ℚ} (h : 0 < factor) :
    r.Compares (factor * lhs) (factor * rhs) ↔ r.Compares lhs rhs := by
  cases r with
  | le => exact mul_le_mul_iff_right₀ h
  | eq => exact mul_right_inj' h.ne'
  | ge => exact mul_le_mul_iff_right₀ h

/-- The constraint holds under an assignment, in exact arithmetic. -/
def LinConstraint.HoldsAt (value : Var → ℤ) (c : LinConstraint) : Prop :=
  c.rel.Compares (Term.sumAt value c.terms) c.rhs.val

/-- All constraints of a list hold under an assignment. -/
def AllHold (value : Var → ℤ) (cs : List LinConstraint) : Prop :=
  ∀ c ∈ cs, c.HoldsAt value

/-- All variables of a list have values in their domains. -/
def InDomains (value : Var → ℤ) (xs : List Variable) : Prop :=
  ∀ x ∈ xs, x.domain.Includes (value x.var)

/-- An assignment solves an instance if it stays within the domains of the declared variables and
satisfies all constraints. -/
structure Instance.IsSolution (inst : Instance) (value : Var → ℤ) : Prop where
  /-- Every declared variable has a value of its domain. -/
  inDomains : InDomains value inst.vars
  /-- Every constraint holds. -/
  allHold : AllHold value inst.constrs

section Lists

variable {value other : Var → ℤ}

@[simp] lemma allHold_singleton {c : LinConstraint} :
    AllHold value [c] ↔ c.HoldsAt value := by
  simp [AllHold]

@[simp] lemma allHold_append {cs ds : List LinConstraint} :
    AllHold value (cs ++ ds) ↔ AllHold value cs ∧ AllHold value ds := by
  simp [AllHold, or_imp, forall_and]

@[simp] lemma inDomains_append {xs ys : List Variable} :
    InDomains value (xs ++ ys) ↔ InDomains value xs ∧ InDomains value ys := by
  simp [InDomains, or_imp, forall_and]

/-- Being in the domains only depends on the values of the variables. -/
lemma InDomains.congr {xs : List Variable} (h : InDomains value xs)
    (heq : ∀ x ∈ xs, other x.var = value x.var) : InDomains other xs := by
  intro x hx
  rw [heq x hx]
  exact h x hx

/-- Whether a constraint holds only depends on the values of its variables. -/
lemma LinConstraint.HoldsAt.congr {c : LinConstraint} (h : c.HoldsAt value)
    (heq : ∀ t ∈ c.terms, other t.var = value t.var) : c.HoldsAt other := by
  unfold LinConstraint.HoldsAt at h ⊢
  rw [Term.sumAt_congr heq]
  exact h

end Lists

/-! ## Evaluated constraints -/

/-- The values of a partial assignment, and zero where it has none. -/
def exactly (value : Var → Option Int64) (v : Var) : ℤ :=
  (value v).elim 0 Int64.toInt

section Evaluation

variable {value : Var → Option Int64} {b : Bool}

lemma Relation.holds_iff {r : Relation} {lhs rhs : Coeff} :
    r.holds lhs rhs = true ↔ r.Compares lhs.val rhs.val := by
  cases r <;> simp [Relation.holds, Relation.Compares]

/-- A term is added to a sum if its variable has a value, as long as nothing overflows. -/
lemma LinConstraint.sumUnder?_cons_eq_some {t : Term} {ts : List Term} {sum s : Coeff} :
    sumUnder? value sum (t :: ts) = some s ↔ ∃ x product sum', value t.var = some x ∧
      Coeff.mul? t.coeff (.ofWord x) = some product ∧ Coeff.add? sum product = some sum' ∧
      sumUnder? value sum' ts = some s := by
  simp only [sumUnder?, Option.bind_eq_bind, Option.bind_eq_some_iff, exists_and_left]

/-- A sum that can be computed is exact. -/
lemma LinConstraint.val_of_sumUnder? {ts : List Term} {sum s : Coeff}
    (h : sumUnder? value sum ts = some s) :
    s.val = sum.val + Term.sumAt (exactly value) ts := by
  induction ts generalizing sum with
  | nil =>
    cases h
    rw [Term.sumAt_nil, add_zero]
  | cons t ts ih =>
    obtain ⟨x, product, sum', hx, hproduct, hsum, h⟩ := sumUnder?_cons_eq_some.1 h
    have hvalue : exactly value t.var = x.toInt := by rw [exactly, hx, Option.elim_some]
    rw [ih h, Coeff.val_of_add? hsum, Coeff.val_of_mul? hproduct, Coeff.val_ofWord,
      Term.sumAt_cons, hvalue, add_assoc]

/-- A constraint that can be evaluated has the truth of exact arithmetic. -/
lemma LinConstraint.holdsAt_of_evaluate {c : LinConstraint} (h : c.evaluate value = some b) :
    b = true ↔ c.HoldsAt (exactly value) := by
  obtain ⟨lhs, hlhs, rfl⟩ := Option.map_eq_some_iff.1 h
  rw [Relation.holds_iff, val_of_sumUnder? hlhs, Coeff.val_zero, zero_add]
  rfl

/-- Constraints that can be decided have the truth of exact arithmetic. -/
lemma Instance.allHold_of_allHold? {cs : List LinConstraint}
    (h : Instance.allHold? value cs = some b) : b = true ↔ AllHold (exactly value) cs := by
  induction cs with
  | nil =>
    cases h
    simp [AllHold]
  | cons c cs ih =>
    rw [AllHold, List.forall_mem_cons]
    unfold Instance.allHold? at h
    split at h
    case h_1 hc =>
      rw [ih h, ← LinConstraint.holdsAt_of_evaluate hc, eq_self, true_and]
      rfl
    case h_2 hne =>
      have hb : b ≠ true := fun hb => hne (hb ▸ h)
      rw [← LinConstraint.holdsAt_of_evaluate h]
      exact ⟨fun hb' => absurd hb' hb, And.left⟩

/-- An answer to whether an assignment satisfies an instance is that of exact arithmetic. -/
lemma Instance.isSatisfiedBy_eq_some {inst : Instance} (h : inst.isSatisfiedBy value = some b) :
    b = true ↔ AllHold (exactly value) inst.constrs ∧
      ∀ c ∈ inst.constrs, inst.inDomains value c.terms = true := by
  obtain ⟨holds, hholds, rfl⟩ := Option.map_eq_some_iff.1 h
  rw [Bool.and_eq_true, Instance.allHold_of_allHold? hholds, List.all_eq_true]

/-- Whether values lie in their domains only depends on the declared variables and on those of the
sum. -/
lemma Instance.inDomains_congr {inst inst' : Instance} {ts us : List Term}
    (hbyId : inst'.byId = inst.byId) (hus : us.map (·.var) = ts.map (·.var)) :
    inst'.inDomains value us = inst.inDomains value ts := by
  have hdomain : inst'.domain? = inst.domain? := by
    funext v
    rw [Instance.domain?, Instance.domain?, Instance.find?, Instance.find?, hbyId]
  induction ts generalizing us with
  | nil => rw [List.map_eq_nil_iff.1 hus, Instance.inDomains, Instance.inDomains]; rfl
  | cons t ts ih =>
    obtain ⟨u, us, rfl, hu, hus⟩ := List.map_eq_cons_iff.1 hus
    have hrest := ih hus
    unfold Instance.inDomains at hrest ⊢
    rw [List.all_cons, List.all_cons, hrest, hu, hdomain]

end Evaluation

/-! ## Conservative extensions -/

/-- The constraints mention none of the variables. -/
def Avoids (cs : List LinConstraint) (xs : List Variable) : Prop :=
  ∀ c ∈ cs, ∀ t ∈ c.terms, t.var ∉ xs.map (·.var)

lemma avoids_nil (xs : List Variable) : Avoids [] xs := by
  simp [Avoids]

/-- Constraints that avoid the variables hold whatever the values of these. -/
lemma AllHold.congr {value other : Var → ℤ} {cs : List LinConstraint} {xs : List Variable}
    (h : AllHold value cs) (havoid : Avoids cs xs)
    (heq : ∀ v, v ∉ xs.map (·.var) → other v = value v) : AllHold other cs :=
  fun c hc => (h c hc).congr fun t ht => heq t.var (havoid c hc t ht)

/-- The constraints `new` over the variables `vars` and `aux` say of `vars` what `old` says, and
they determine `aux`. -/
structure Conservative (vars : List Variable) (old : List LinConstraint)
    (aux : List Variable) (new : List LinConstraint) : Prop where
  /-- Solutions of `old` extend to `aux`. -/
  extend : ∀ value, InDomains value vars → AllHold value old →
    ∃ value' : Var → ℤ, (∀ v, v ∉ aux.map (·.var) → value' v = value v) ∧
      InDomains value' aux ∧ AllHold value' new
  /-- The values of `aux` follow from those of `vars`. -/
  determined : ∀ value other, AllHold value new → AllHold other new →
    (∀ x ∈ vars, value x.var = other x.var) → ∀ x ∈ aux, value x.var = other x.var
  /-- Solutions of `new` solve `old`. -/
  restrict : ∀ value, AllHold value new → AllHold value old

namespace Conservative

variable {vars aux aux₁ aux₂ : List Variable} {old mid new cs ds : List LinConstraint}

/-- Constraints extend others with the same meaning. -/
lemma of_iff (h : ∀ value, AllHold value new ↔ AllHold value old) :
    Conservative vars old [] new where
  extend value _ hold := ⟨value, fun _ _ => rfl, by simp [InDomains], (h value).2 hold⟩
  determined _ _ _ _ _ x hx := by simp at hx
  restrict value hnew := (h value).1 hnew

/-- Conservative extensions compose. -/
lemma trans (h₁ : Conservative vars old aux₁ mid) (h₂ : Conservative (vars ++ aux₁) mid aux₂ new)
    (hnodup : ((vars ++ (aux₁ ++ aux₂)).map (·.var)).Nodup) :
    Conservative vars old (aux₁ ++ aux₂) new := by
  rw [List.map_append, List.map_append] at hnodup
  obtain ⟨-, haux, hvars⟩ := List.nodup_append.1 hnodup
  obtain ⟨-, -, hdisj⟩ := List.nodup_append.1 haux
  -- the variables that are there before a step are none of those that it adds
  have hvars₁ : ∀ x ∈ vars, x.var ∉ aux₁.map (·.var) := fun x hx hmem =>
    hvars x.var (List.mem_map_of_mem hx) x.var (List.mem_append_left _ hmem) rfl
  have haux₁ : ∀ x ∈ aux₁, x.var ∉ aux₂.map (·.var) := fun x hx hmem =>
    hdisj x.var (List.mem_map_of_mem hx) x.var hmem rfl
  constructor
  case extend =>
    intro value hdom hold
    obtain ⟨mid₁, hoff₁, hdom₁, hmid⟩ := h₁.extend value hdom hold
    have hdomVars : InDomains mid₁ vars := hdom.congr fun x hx => hoff₁ x.var (hvars₁ x hx)
    obtain ⟨last, hoff₂, hdom₂, hnew⟩ :=
      h₂.extend mid₁ (inDomains_append.2 ⟨hdomVars, hdom₁⟩) hmid
    refine ⟨last, ?_, ?_, hnew⟩
    · intro v hv
      rw [List.map_append, List.mem_append, not_or] at hv
      rw [hoff₂ v hv.2, hoff₁ v hv.1]
    · exact inDomains_append.2
        ⟨hdom₁.congr fun x hx => hoff₂ x.var (haux₁ x hx), hdom₂⟩
  case determined =>
    intro value other hvalue hother heq
    have h₁eq := h₁.determined value other (h₂.restrict value hvalue) (h₂.restrict other hother) heq
    have hboth : ∀ x ∈ vars ++ aux₁, value x.var = other x.var := by
      intro x hx
      rcases List.mem_append.1 hx with hx | hx
      · exact heq x hx
      · exact h₁eq x hx
    intro x hx
    rcases List.mem_append.1 hx with hx | hx
    · exact h₁eq x hx
    · exact h₂.determined value other hvalue hother hboth x hx
  case restrict => exact fun value hnew => h₁.restrict value (h₂.restrict value hnew)

/-- Constraints that avoid the further variables may stand on either side. -/
lemma frame (h : Conservative vars old aux new) (hcs : Avoids cs aux) (hds : Avoids ds aux) :
    Conservative vars (cs ++ old ++ ds) aux (cs ++ new ++ ds) where
  extend value hdom hold := by
    rw [allHold_append, allHold_append] at hold
    obtain ⟨⟨hleft, hold⟩, hright⟩ := hold
    obtain ⟨value', hoff, hdom', hnew⟩ := h.extend value hdom hold
    refine ⟨value', hoff, hdom', ?_⟩
    rw [allHold_append, allHold_append]
    exact ⟨⟨hleft.congr hcs hoff, hnew⟩, hright.congr hds hoff⟩
  determined value other hvalue hother heq := by
    rw [allHold_append, allHold_append] at hvalue hother
    exact h.determined value other hvalue.1.2 hother.1.2 heq
  restrict value hnew := by
    rw [allHold_append, allHold_append] at hnew ⊢
    exact ⟨⟨hnew.1.1, h.restrict value hnew.1.2⟩, hnew.2⟩

end Conservative

end LinearInterchange
