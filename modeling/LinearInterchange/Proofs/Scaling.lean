import LinearInterchange.Instance.Integral
import LinearInterchange.Proofs.Arithmetic
import LinearInterchange.Proofs.Declarations

/-!
# Scaling to integers

A normalizer multiplies constraints and the objective by common multiples of their denominators.
Whether it succeeds or not, the variables of all terms stay as they are, so an instance stays well
formed.
-/

namespace LinearInterchange

/-! ## Scaled terms -/

namespace Term

variable {factor : Coeff}

/-- Scaling keeps the variables of the terms, also where it fails. -/
lemma vars_scaleAll (ts : List Term) :
    (scaleAll factor ts).1.map (·.var) = ts.map (·.var) := by
  induction ts with
  | nil => rfl
  | cons t ts ih =>
    unfold scaleAll
    split
    · rfl
    · simp only [List.map_cons, ih]

lemma allIntegers_iff {ts : List Term} :
    allIntegers ts = true ↔ ∀ t ∈ ts, t.coeff.isInteger = true :=
  List.all_eq_true

end Term

namespace LinConstraint

variable {c : LinConstraint}

/-- Scaling keeps the variables of a constraint, also where it fails. -/
lemma vars_scale (factor : Coeff) (c : LinConstraint) :
    (c.scale factor).1.terms.map (·.var) = c.terms.map (·.var) := by
  have hvars : (Term.scaleAll factor c.terms).1.map (·.var) = c.terms.map (·.var) :=
    Term.vars_scaleAll c.terms
  unfold scale
  split
  · rfl
  · split
    · rename_i hscale
      rwa [hscale] at hvars
    · rename_i hscale
      rw [hscale] at hvars
      split <;> exact hvars

lemma isIntegral_iff : c.isIntegral = true ↔
    c.rhs.isInteger = true ∧ ∀ t ∈ c.terms, t.coeff.isInteger = true := by
  rw [isIntegral, Bool.and_eq_true, Term.allIntegers_iff]

end LinConstraint

/-! ## Scaled constraints -/

namespace Normalizer

/-- Normalizing keeps the variables of a constraint, also where it fails. -/
lemma vars_scaleConstr (n : Normalizer) (number : ℕ) (c : LinConstraint) :
    (n.scaleConstr number c).1.terms.map (·.var) = c.terms.map (·.var) := by
  unfold scaleConstr
  dsimp only
  split
  · rfl
  · rfl
  · exact c.vars_scale _

/-- Normalizing one constraint after another keeps their variables, also where it fails. -/
lemma vars_scaleConstrs (n : Normalizer) (number : ℕ) (cs : List LinConstraint) :
    ∀ c' ∈ (n.scaleConstrs number cs).1, ∃ c ∈ cs,
      c'.terms.map (·.var) = c.terms.map (·.var) := by
  induction cs generalizing number with
  | nil => simp [scaleConstrs]
  | cons c cs ih =>
    have hvars := n.vars_scaleConstr number c
    intro c' hc'
    unfold scaleConstrs at hc'
    split at hc'
    · rename_i hscale
      rw [hscale] at hvars
      rcases List.mem_cons.1 hc' with rfl | hc'
      · exact ⟨c, List.mem_cons_self, hvars⟩
      · exact ⟨c', List.mem_cons_of_mem _ hc', rfl⟩
    · rename_i hscale
      rw [hscale] at hvars
      rcases List.mem_cons.1 hc' with rfl | hc'
      · exact ⟨c, List.mem_cons_self, hvars⟩
      · obtain ⟨d, hd, heq⟩ := ih _ c' hc'
        exact ⟨d, List.mem_cons_of_mem _ hd, heq⟩

/-! ## The scaled objective -/

/-- Normalizing keeps the variables and the direction of an objective, also where it fails. -/
lemma vars_scaleObjective (n : Normalizer) (o : Objective) :
    (n.scaleObjective o).1.terms.map (·.var) = o.terms.map (·.var) ∧
      (n.scaleObjective o).1.direction = o.direction := by
  unfold scaleObjective
  dsimp only
  split
  · exact ⟨rfl, rfl⟩
  · exact ⟨rfl, rfl⟩
  · exact ⟨Term.vars_scaleAll _, rfl⟩

/-! ## Normalized instances -/

variable {inst : Instance}

/-- Normalizing replaces constraints and the objective by ones over the same variables, also where
it fails. -/
lemma normalize_eq (n : Normalizer) (inst : Instance) : ∃ cs o,
    (n.normalize inst).1 = { inst with constrs := cs, objective := o } ∧
      (∀ c' ∈ cs, ∃ c ∈ inst.constrs, c'.terms.map (·.var) = c.terms.map (·.var)) ∧
      o.terms.map (·.var) = inst.objective.terms.map (·.var) ∧
      o.direction = inst.objective.direction := by
  have hcs := n.vars_scaleConstrs 1 inst.constrs
  have ho := n.vars_scaleObjective inst.objective
  unfold normalize
  split
  · rename_i hscale
    rw [hscale] at hcs
    exact ⟨_, inst.objective, rfl, hcs, rfl, rfl⟩
  · rename_i hscale
    rw [hscale] at hcs
    exact ⟨_, _, rfl, hcs, ho⟩

/-- Normalizing keeps an instance well formed, also where it fails. -/
lemma wellFormed_normalize (n : Normalizer) (h : inst.WellFormed) :
    (n.normalize inst).1.WellFormed := by
  obtain ⟨cs, o, heq, hcs, ho, -⟩ := n.normalize_eq inst
  rw [heq]
  refine h.replace ?_ (h.objective_declared.congr rfl ho)
  intro c' hc'
  obtain ⟨c, hc, hvars⟩ := hcs c' hc'
  exact (h.constrs_declared c hc).congr rfl hvars

end Normalizer

end LinearInterchange
