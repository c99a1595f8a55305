import LinearInterchange.Proofs.Scaling
import LinearInterchange.Proofs.SplitSolutions

/-!
# The form that solvers accept

Some writers only know integers and constraints of three variables.  `LinConstraint.FitsSolver` says
that a constraint passes both of their checks.  Splitting an instance whose numbers are integers
gives constraints that do: a constraint that is kept has few variables after merging, a definition
has three different variables, and the least common denominator of integers is one, so the terms
that are left after folding have integer coefficients again.
-/

namespace LinearInterchange

namespace LinConstraint

variable {c : LinConstraint}

/-- The constraint has at most three variables and integers only. -/
structure FitsSolver (c : LinConstraint) : Prop where
  /-- The variables can be counted and are few. -/
  arity_le : ∃ k, c.arity = .ok k ∧ k ≤ maxTerms
  /-- The coefficients and the right-hand side are integers. -/
  integral : c.isIntegral = true

/-- A single term is merged without an overflow. -/
lemma merged_of_length_le_one (h : c.terms.length ≤ 1) :
    c.merged = .ok (c.terms.filter fun t => t.coeff ≠ 0) := by
  refine Term.merge_of_nodup ?_
  rcases hterms : c.terms with _ | ⟨t, _ | ⟨u, ts⟩⟩
  · exact .nil
  · exact List.nodup_singleton _
  · rw [hterms] at h
    simp at h

/-- The number of variables is that of the merged terms, also where it is counted without merging.
-/
lemma arity_eq (c : LinConstraint) : c.arity = c.merged.map List.length := by
  unfold arity
  split
  case isTrue hone =>
    rw [merged_of_length_le_one hone]
    rfl
  case isFalse => rfl

/-- The number of variables is small exactly if merging gives few terms. -/
lemma arity_le_iff {greatest : ℕ} : (∃ k, c.arity = .ok k ∧ k ≤ greatest) ↔
    ∃ ms, c.merged = .ok ms ∧ ms.length ≤ greatest := by
  rw [arity_eq]
  constructor
  · rintro ⟨k, hk, hle⟩
    obtain ⟨ms, hms, rfl⟩ := map_eq_ok.1 hk
    exact ⟨ms, hms, hle⟩
  · rintro ⟨ms, hms, hle⟩
    exact ⟨ms.length, map_eq_ok.2 ⟨ms, hms, rfl⟩, hle⟩

lemma arity_le_of_nodup (h : (c.terms.map (·.var)).Nodup) (hle : c.terms.length ≤ maxTerms) :
    ∃ k, c.arity = .ok k ∧ k ≤ maxTerms :=
  arity_le_iff.2 ⟨_, Term.merge_of_nodup h, (List.length_filter_le _ _).trans hle⟩

end LinConstraint

namespace Instance

variable {inst inst' : Instance} {number : ℕ}

/-! ## Folding integers -/

/-- The reciprocal of the least common denominator of integers is an integer. -/
lemma PairSum.Represents.isInteger_unitFraction {p : PairSum} {first second : Term}
    {dom₁ dom₂ : Domain} (h : p.Represents first second dom₁ dom₂)
    (hfirst : first.coeff.isInteger = true) (hsecond : second.coeff.isInteger = true) :
    (unitFraction p.denominator).isInteger = true := by
  have hone : p.denominator = 1 := by
    rw [h.denominator_eq, beq_iff_eq.1 hfirst, beq_iff_eq.1 hsecond, Nat.lcm_self]
  rw [hone]
  decide

/-- The definition of an auxiliary variable has integers only. -/
lemma PairSum.Represents.isIntegral_definition {p : PairSum} {first second : Term}
    {dom₁ dom₂ : Domain} (h : p.Represents first second dom₁ dom₂) (aux : Var) :
    (p.definition aux).isIntegral = true := by
  rw [LinConstraint.isIntegral_iff]
  refine ⟨Coeff.isInteger_zero, ?_⟩
  simp only [PairSum.definition, List.mem_cons, List.not_mem_nil, or_false]
  rintro t (rfl | rfl | rfl)
  · exact h.first_integer
  · exact h.second_integer
  · exact Coeff.isInteger_ofWord _

/-- The definition of an auxiliary variable fits if the three variables are different. -/
lemma PairSum.Represents.fitsSolver_definition {p : PairSum} {first second : Term}
    {dom₁ dom₂ : Domain} {aux : Var} (h : p.Represents first second dom₁ dom₂)
    (hnodup : [first.var, second.var, aux].Nodup) : (p.definition aux).FitsSolver where
  arity_le := by
    refine LinConstraint.arity_le_of_nodup ?_ le_rfl
    simpa only [PairSum.definition, List.map_cons, List.map_nil, h.first_var, h.second_var]
      using hnodup
  integral := h.isIntegral_definition aux

/-- The terms have integer coefficients and are over different declared variables. -/
structure IntegralTerms (inst : Instance) (ts : List Term) : Prop where
  /-- The variables are declared. -/
  declared : inst.DeclaresAll ts
  /-- No variable occurs twice. -/
  nodup : (ts.map (·.var)).Nodup
  /-- The coefficients are integers. -/
  integer : ∀ t ∈ ts, t.coeff.isInteger = true

/-- Merged terms with integer coefficients are integral. -/
lemma integralTerms_merge {ts ms : List Term} (h : Term.merge ts = .ok ms)
    (hdecl : inst.DeclaresAll ts) (hint : ∀ t ∈ ts, t.coeff.isInteger = true) :
    inst.IntegralTerms ms where
  declared m hm := by
    obtain ⟨t, ht, htm⟩ := List.mem_map.1 (Term.mem_of_mem_merge h hm)
    rw [← htm]
    exact hdecl t ht
  nodup := Term.nodup_merge h
  integer := Term.isInteger_merge h hint

/-- One step of folding integral terms leaves integral terms and adds a definition that fits. -/
lemma fitsSolver_foldPair (hreg : inst.Registered) {first second t : Term} {rest : List Term}
    (hts : inst.IntegralTerms (first :: second :: rest))
    (hfit : ∀ c ∈ inst.constrs, c.FitsSolver)
    (h : inst.foldPair number first second = (inst', .ok t)) :
    inst'.IntegralTerms (t :: rest) ∧ ∀ c ∈ inst'.constrs, c.FitsSolver := by
  obtain ⟨x, y, p, v, inst₁, -, -, hp, hv, hadd, rfl⟩ := foldPair_ok h
  have hrep := represents_of_pairSum hp
  obtain ⟨a, rfl, -, hgrow⟩ := hreg.grows_of_newAux hv
  have hgrow' : inst.Grows inst' [a] [p.definition a.var] :=
    hgrow.trans (grows_of_addConstr hadd)
  -- the auxiliary variable is new, so it is none of the variables of the terms
  have hnew : a.var ∉ (first :: second :: rest).map (·.var) := by
    intro hmem
    obtain ⟨u, hu, hua⟩ := List.mem_map.1 hmem
    have hdecl := hts.declared u hu
    rw [hua, hreg.not_declares_used (hreg.newAux_ok hv).1] at hdecl
    exact Bool.false_ne_true hdecl
  have hnodup := hts.nodup
  simp only [List.map_cons, List.nodup_cons, List.mem_cons, not_or] at hnodup hnew
  obtain ⟨⟨hne, -⟩, -, hrest⟩ := hnodup
  obtain ⟨hfirst, hsecond, hnotin⟩ := hnew
  refine ⟨⟨?_, ?_, ?_⟩, ?_⟩
  · intro u hu
    rcases List.mem_cons.1 hu with rfl | hu
    · exact declares_of_mem (hgrow'.vars_eq ▸ by simp)
    · exact hreg.declares_mono hgrow'.prefix_vars
        (hts.declared u (List.mem_cons_of_mem _ (List.mem_cons_of_mem _ hu)))
  · exact List.nodup_cons.2 ⟨hnotin, hrest⟩
  · intro u hu
    rcases List.mem_cons.1 hu with rfl | hu
    · exact hrep.isInteger_unitFraction (hts.integer _ (by simp)) (hts.integer _ (by simp))
    · exact hts.integer u (List.mem_cons_of_mem _ (List.mem_cons_of_mem _ hu))
  · intro c hc
    rw [hgrow'.constrs_eq, List.mem_append, List.mem_singleton] at hc
    rcases hc with hc | rfl
    · exact hfit c hc
    · refine hrep.fitsSolver_definition ?_
      simp [hne, Ne.symm hfirst, Ne.symm hsecond]

/-- Folding integral terms leaves at most three integral terms and adds definitions that fit. -/
lemma fitsSolver_foldTerms (hreg : inst.Registered) {ts us : List Term} {n : ℕ}
    (hts : inst.IntegralTerms ts) (hfit : ∀ c ∈ inst.constrs, c.FitsSolver)
    (h : foldTerms number ts inst = (inst', .ok (us, n))) :
    us.length ≤ maxTerms ∧ inst'.IntegralTerms us ∧ ∀ c ∈ inst'.constrs, c.FitsSolver := by
  fun_induction foldTerms number ts inst generalizing us n with
  | case1 => cases h
  | case2 first second third fourth rest inst inst₁ t hfold inst₂ outcome hrest ih =>
    simp only [Prod.mk.injEq] at h
    obtain ⟨rfl, hok⟩ := h
    obtain ⟨⟨us₁, m⟩, rfl, heq⟩ := map_eq_ok.1 hok
    cases heq
    obtain ⟨hts₁, hfit₁⟩ := fitsSolver_foldPair hreg hts hfit hfold
    exact ih (hreg.foldPair hfold) hts₁ hfit₁ hrest
  | case3 ts inst hshort =>
    cases h
    refine ⟨?_, hts, hfit⟩
    rcases ts with _ | ⟨first, _ | ⟨second, _ | ⟨third, _ | ⟨fourth, rest⟩⟩⟩⟩
    case cons.cons.cons.cons => exact absurd rfl (hshort first second third fourth rest)
    all_goals simp [maxTerms]

/-! ## Splitting integral constraints -/

/-- Splitting an integral constraint adds constraints that fit. -/
lemma fitsSolver_addSplit (hreg : inst.Registered) {c : LinConstraint} {n : ℕ}
    (hdecl : inst.DeclaresAll c.terms) (hc : c.isIntegral = true)
    (hfit : ∀ d ∈ inst.constrs, d.FitsSolver) (h : inst.addSplit number c = (inst', .ok n)) :
    ∀ d ∈ inst'.constrs, d.FitsSolver := by
  obtain ⟨hrhs, hint⟩ := LinConstraint.isIntegral_iff.1 hc
  obtain ⟨ms, hms, ⟨hle, -, hadd⟩ | ⟨-, inst₁, ts, hfold, hadd⟩⟩ := addSplit_ok h
  · obtain ⟨-, rfl⟩ := addConstr_ok hadd
    intro d hd
    rcases List.mem_append.1 hd with hd | hd
    · exact hfit d hd
    · rw [List.mem_singleton.1 hd]
      exact ⟨LinConstraint.arity_le_iff.2 ⟨ms, hms, hle⟩, hc⟩
  · obtain ⟨hle, hts, hfit₁⟩ :=
      fitsSolver_foldTerms hreg (integralTerms_merge hms hdecl hint) hfit hfold
    obtain ⟨-, rfl⟩ := addConstr_ok hadd
    intro d hd
    rcases List.mem_append.1 hd with hd | hd
    · exact hfit₁ d hd
    · rw [List.mem_singleton.1 hd]
      exact ⟨LinConstraint.arity_le_of_nodup hts.nodup hle,
        LinConstraint.isIntegral_iff.2 ⟨hrhs, hts.integer⟩⟩

/-- Splitting integral constraints one after another adds constraints that fit. -/
lemma fitsSolver_addAllSplit (hreg : inst.Registered) {cs : List LinConstraint}
    {stats : SplitStats} (hdecl : ∀ c ∈ cs, inst.DeclaresAll c.terms)
    (hint : ∀ c ∈ cs, c.isIntegral = true) (hfit : ∀ d ∈ inst.constrs, d.FitsSolver)
    (h : addAllSplit number cs inst = (inst', .ok stats)) :
    ∀ d ∈ inst'.constrs, d.FitsSolver := by
  induction cs generalizing inst number stats with
  | nil => cases h; exact hfit
  | cons c cs ih =>
    obtain ⟨inst₁, n, stats₁, hsplit, hrest, -⟩ := addAllSplit_ok h
    have hc := hdecl c List.mem_cons_self
    obtain ⟨aux, new, hgrow, hreg₁, -⟩ := conservative_addSplit hreg hc hsplit
    have hfit₁ := fitsSolver_addSplit hreg hc (hint c List.mem_cons_self) hfit hsplit
    refine ih hreg₁ ?_ (fun d hd => hint d (List.mem_cons_of_mem _ hd)) hfit₁ hrest
    exact fun d hd => hreg.declaresAll_mono hgrow.prefix_vars (hdecl d (List.mem_cons_of_mem _ hd))

/-- The constraints of an integral instance fit after it has been split. -/
lemma fitsSolver_splitConstrs (hwf : inst.WellFormed) {stats : SplitStats}
    (hint : ∀ c ∈ inst.constrs, c.isIntegral = true)
    (h : inst.splitConstrs = (inst', .ok stats)) : ∀ d ∈ inst'.constrs, d.FitsSolver := by
  refine fitsSolver_addAllSplit hwf.takeConstrs.toRegistered hwf.constrs_declared hint ?_ h
  intro d hd
  exact absurd hd List.not_mem_nil

end Instance

end LinearInterchange
