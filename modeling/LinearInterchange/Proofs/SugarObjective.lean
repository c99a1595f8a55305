import LinearInterchange.Proofs.SugarListing
import LinearInterchange.Proofs.SumRanges
import LinearInterchange.Proofs.WriterAcceptance

/-!
# The objective variable

A program for Sugar optimises one variable, which is defined as the objective sum.  The variable has
bounds like any other one, and if they were too narrow, the definition would cut off assignments
that the instance allows.  They are not: the range that is computed for a sum is the exact sum of
the ranges of its terms (`sumRange_ok`), each of which holds all products with values of the domain.
Terms over one variable may appear more than once; the sum of their ranges may then be wider than
needed, and it is exact if they do not (`spans_sum`).
-/

namespace LinearInterchange.Sugar

open Problem

variable {inst : Instance} {ts : List Term} {value : Var → ℤ}

/-! ## Ranges of sums -/

/-- The sum of the least values of the terms. -/
def lowestSum (inst : Instance) (ts : List Term) : ℚ :=
  (ts.map fun t => t.lowest (domainOf inst t)).sum

/-- The sum of the greatest values of the terms. -/
def highestSum (inst : Instance) (ts : List Term) : ℚ :=
  (ts.map fun t => t.highest (domainOf inst t)).sum

/-- Steps that succeed add the exact ends of the ranges of the terms. -/
lemma foldlM_addRange_ok {range r : Coeff × Coeff} (hts : ∀ t ∈ ts, t.coeff.isInteger = true)
    (hlo : range.1.isInteger = true) (hhi : range.2.isInteger = true)
    (h : ts.foldlM (addRange inst) range = .ok r) :
    r.1.val = range.1.val + lowestSum inst ts ∧ r.2.val = range.2.val + highestSum inst ts := by
  induction ts generalizing range with
  | nil =>
    obtain rfl := Except.ok.inj h
    exact ⟨(add_zero _).symm, (add_zero _).symm⟩
  | cons t ts ih =>
    rw [List.forall_mem_cons] at hts
    rw [List.foldlM_cons] at h
    obtain ⟨next, hnext, hrest⟩ := bind_eq_ok.1 h
    obtain ⟨hnextlo, hnexthi, hint₁, hint₂⟩ := addRange_ok hts.1 hlo hhi hnext
    have hends := ih hts.2 hint₁ hint₂ hrest
    rw [hnextlo, hnexthi, add_assoc, add_assoc] at hends
    exact hends

/-- The range of a sum of integers lies between the sums of the least and of the greatest values. -/
lemma sumRange_ok {lo hi : Coeff} (hts : ∀ t ∈ ts, t.coeff.isInteger = true)
    (h : sumRange inst ts = .ok (lo, hi)) :
    lo.val = lowestSum inst ts ∧ hi.val = highestSum inst ts := by
  have hends := foldlM_addRange_ok hts Coeff.isInteger_zero Coeff.isInteger_zero h
  simpa only [Coeff.val_zero, zero_add] using hends

/-! ## Sums over domains -/

/-- The range of each term is computed over the domain of its variable. -/
def HasDomains (inst : Instance) (ts : List Term) : Prop :=
  ∀ t ∈ ts, ∃ x ∈ inst.vars, x.var = t.var ∧ domainOf inst t = x.domain

/-- Terms that are written have declared variables. -/
lemma hasDomains_of_shows (hinst : inst.Coherent) {ps : List Product}
    (h : List.Forall₂ (Product.Shows inst) ts ps) : HasDomains inst ts := by
  refine forall_right_of_forall₂ (fun p t hp => ?_) h.flip
  obtain ⟨x, hx, -⟩ := Option.map_eq_some_iff.1 hp.name_eq
  obtain ⟨hmem, hvar⟩ := hinst.mem_vars_of_find? hx
  refine ⟨x, hmem, hvar, ?_⟩
  rw [domainOf, Instance.domain?, hx]
  rfl

lemma isInteger_of_shows {ps : List Product} (h : List.Forall₂ (Product.Shows inst) ts ps) :
    ∀ t ∈ ts, t.coeff.isInteger = true :=
  forall_right_of_forall₂ (fun p _ hp => Coeff.isInteger_iff.2 ⟨p.factor, hp.factor_eq.symm⟩) h.flip

/-- Within the domains a sum stays between the sums of the ends. -/
lemma sumAt_mem_range (h : HasDomains inst ts) (hin : InDomains value inst.vars) :
    lowestSum inst ts ≤ Term.sumAt value ts ∧ Term.sumAt value ts ≤ highestSum inst ts := by
  have hterm : ∀ t ∈ ts, t.lowest (domainOf inst t) ≤ t.coeff.val * value t.var ∧
      t.coeff.val * value t.var ≤ t.highest (domainOf inst t) := by
    intro t ht
    obtain ⟨x, hx, hvar, hdomain⟩ := h t ht
    have hincludes := hin x hx
    rw [hvar] at hincludes
    rw [hdomain]
    exact t.lowest_le_highest hincludes
  exact ⟨List.sum_le_sum fun t ht => (hterm t ht).1, List.sum_le_sum fun t ht => (hterm t ht).2⟩

section Nonempty

variable (hids : (inst.vars.map (·.var)).Nodup) (hdom : ∀ x ∈ inst.vars, x.domain.Nonempty)

include hids hdom

/-- Some assignment is within the domains. -/
lemma exists_within : ∃ value, InDomains value inst.vars := by
  rcases List.eq_nil_or_concat inst.vars with hnil | ⟨xs, x, hx⟩
  · exact ⟨fun _ => 0, by simp [hnil, InDomains]⟩
  · have hmem : x ∈ inst.vars := by simp [hx]
    obtain ⟨value, hin, -⟩ := exists_inDomains hids hdom hmem ⟨le_rfl, hdom x hmem⟩
    exact ⟨value, hin⟩

/-- The sums of the ends are the least and the greatest value of a sum over different variables. -/
lemma spans_sum (h : HasDomains inst ts) (hts : (ts.map (·.var)).Nodup) :
    Term.Spans inst.vars ts (lowestSum inst ts) (highestSum inst ts) := by
  induction ts using List.reverseRecOn with
  | nil =>
    obtain ⟨value, hin⟩ := exists_within hids hdom
    refine ⟨⟨⟨value, hin, rfl⟩, ?_⟩, ⟨⟨value, hin, rfl⟩, ?_⟩⟩ <;> rintro q ⟨value', -, rfl⟩ <;>
      exact le_rfl
  | append_singleton ts t ih =>
    rw [List.map_append, List.map_singleton, ← List.concat_eq_append, List.nodup_concat] at hts
    obtain ⟨x, hx, hvar, hdomain⟩ := h t (List.mem_append_right _ List.mem_cons_self)
    have hrest := ih (fun u hu => h u (List.mem_append_left _ hu)) hts.2
    have hlast := Term.spans_singleton hids hdom hx hvar
    rw [← hdomain] at hlast
    have hsum := hrest.concat hlast hts.1
    simpa [lowestSum, highestSum] using hsum

end Nonempty

/-! ## The column of the objective -/

/-- The column can stand for the value of the objective. -/
structure StandsForObjective (inst : Instance) (x : Column) : Prop where
  /-- No variable has its name. -/
  name_new : x.name ∉ inst.names
  least_le_greatest : x.least ≤ x.greatest
  /-- Its bounds hold all values that the objective takes within the domains. -/
  bounds : ∀ value, InDomains value inst.vars →
    (x.least : ℚ) ≤ Term.sumAt value inst.objective.terms ∧
      Term.sumAt value inst.objective.terms ≤ x.greatest
  /-- Both bounds are such values, if no variable appears twice. -/
  attained : (inst.objective.terms.map (·.var)).Nodup →
    Term.Spans inst.vars inst.objective.terms x.least x.greatest

/-- The column of a goal that shows the objective stands for its value. -/
lemma standsForObjective_of_shows (hinst : inst.Coherent)
    (hdom : ∀ x ∈ inst.vars, x.domain.Nonempty) {objectiveVar : String} {g : Goal} {x : Column}
    (hg : g.Shows (.sugar objectiveVar) inst) (hx : g.column = some x) :
    StandsForObjective inst x := by
  obtain ⟨lo, hi, y, hy, hrange, hname, hleast, hgreatest⟩ := hg.column
  obtain rfl := Option.some.inj (hx.symm.trans hy)
  have hdomains := hasDomains_of_shows hinst hg.products
  obtain ⟨hlo, hhi⟩ := sumRange_ok (isInteger_of_shows hg.products) hrange
  rw [hlo] at hleast
  rw [hhi] at hgreatest
  have hbounds : ∀ value, InDomains value inst.vars →
      (x.least : ℚ) ≤ Term.sumAt value inst.objective.terms ∧
        Term.sumAt value inst.objective.terms ≤ x.greatest := by
    intro value hin
    rw [hleast, hgreatest]
    exact sumAt_mem_range hdomains hin
  refine ⟨?_, ?_, hbounds, fun hts => ?_⟩
  · rw [hname, ← hinst.takenNames_eq]
    exact freshName_not_mem inst.takenNames objectiveVar
  · obtain ⟨value, hin⟩ := exists_within hinst.nodup_ids hdom
    exact Int.cast_le.1 ((hbounds value hin).1.trans (hbounds value hin).2)
  · rw [hleast, hgreatest]
    exact spans_sum hinst.nodup_ids hdom hdomains hts

/-- **The objective variable cuts off no assignment.**  An instance with nonempty domains and an
objective is written for Sugar.  The text ends with the declaration of a variable, its definition as
the objective sum and the statement that it is optimised.  The name of that variable is none of the
instance.  Its bounds are integers in order, between which the objective sum lies in every
assignment within the domains.  They are the least and the greatest of these sums if the terms of
the objective are over different variables. -/
theorem objective_cuts_off_nothing {objectiveVar text : String} (hreg : inst.Registered)
    (hdom : ∀ x ∈ inst.vars, x.domain.Nonempty) (hterms : inst.objective.terms ≠ [])
    (hwritten : (encode objectiveVar inst).output = (.ok (), text)) :
    ∃ front g x, text = front ++ dialect.lines (goalStatements g x) ∧
      g.Shows (.sugar objectiveVar) inst ∧ g.column = some x ∧ StandsForObjective inst x := by
  obtain ⟨p, hp, rfl, -⟩ := exists_problem_of_output hwritten
  obtain ⟨g, hgoal, hg⟩ := hp.goal hterms
  obtain ⟨-, -, x, hx, -⟩ := hg.column
  let others : List Statement := p.columns.map .int ++ p.rows.map .comparison
  refine ⟨dialect.nameLine p.name ++ dialect.lines others, g, x, ?_, hg, hx,
    standsForObjective_of_shows hreg.toCoherent hdom hg hx⟩
  have hstatements : (listing p).statements = others ++ goalStatements g x := by
    simp [listing, hgoal, hx, others]
  rw [Dialect.text, hstatements, Dialect.lines_append, String.append_assoc]
  rfl

/-- The name of the objective variable is taken twice, a coefficient is negative, and a domain holds
negative values. -/
theorem objective_cuts_off_nothing_underscored :
    let x : Var := ⟨0, by decide⟩
    let y : Var := ⟨1, by decide⟩
    let inst : Instance :=
      { Instance.ofVariables [⟨x, "_obj", .range (-3) 4, .user⟩, ⟨y, "__obj", .bool, .user⟩] with
        objective := ⟨.maximize, [⟨.ofWord (-2), x⟩, ⟨.ofWord 5, y⟩]⟩ }
    let goal := "(int ___obj -8 11)\n(= ___obj (+ (* -2 _obj) (* 5 __obj)))\n"
      ++ "(objective maximize ___obj)\n"
    let text := "(int _obj -3 4)\n(int __obj 0 1)\n" ++ goal
    (encode "_obj" inst).output = (.ok (), text) ∧
      ∃ front g x, text = front ++ dialect.lines (goalStatements g x) ∧
        g.Shows (.sugar "_obj") inst ∧ g.column = some x ∧ StandsForObjective inst x := by
  intro x y inst goal text
  have hreg : inst.Registered :=
    (Instance.registered_ofVariables (by decide) (by decide)).1.replace _ _ _
  have hwritten : (encode "_obj" inst).output = (.ok (), text) := by decide +kernel
  exact ⟨hwritten, objective_cuts_off_nothing hreg (by decide) (by decide) hwritten⟩

end LinearInterchange.Sugar
