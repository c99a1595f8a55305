import LinearInterchange.Proofs.Merging
import LinearInterchange.Proofs.SolverForm

/-!
# Constraints without repeated variables

Merging the terms of a constraint is described here by what the terms give to each variable in exact
arithmetic (`Term.total`).  If merging succeeds, the variables that remain are those whose total is
not zero, in the order in which they first occur, and their coefficients are the totals.  This
determines the merged terms, so a constraint that is built from them is merged to the same terms,
and they are as many as are counted without merging where there is at most one term.

Merging is told variable by variable.  It can as well be done in one pass over the terms that adds
up the coefficients of all variables at once (`Term.merge_eq_ok_iff_accumulate`): each sum has the
same summands in the same order, so the same ones overflow.
-/

namespace LinearInterchange

namespace Term

variable {ts ms : List Term} {v : Var}

/-- What the terms give to a variable, in exact arithmetic. -/
def total (v : Var) (ts : List Term) : ℚ :=
  ((ts.filter fun t => t.var = v).map (·.coeff.val)).sum

/-- No term is over a variable that the terms do not mention. -/
lemma filter_var_eq_nil (h : v ∉ ts.map (·.var)) : (ts.filter fun t => t.var = v) = [] := by
  rw [List.filter_eq_nil_iff]
  intro t ht hv
  exact h (of_decide_eq_true hv ▸ List.mem_map_of_mem ht)

/-- Terms give nothing to variables that they do not mention. -/
lemma total_of_notMem (h : v ∉ ts.map (·.var)) : total v ts = 0 := by
  rw [total, filter_var_eq_nil h]
  rfl

/-! ## The order of first occurrences -/

/-- One more term adds its variable in the end, unless it was there before. -/
lemma varsOf_concat (ts : List Term) (t : Term) :
    varsOf (ts ++ [t]) = if t.var ∈ varsOf ts then varsOf ts else varsOf ts ++ [t.var] := by
  rw [varsOf, List.foldl_append]
  rfl

/-- The variable at the left occurs first before the one at the right does. -/
def OccursBefore (ts : List Term) (v w : Var) : Prop :=
  (ts.map (·.var)).idxOf v < (ts.map (·.var)).idxOf w

lemma idxOf_concat (h : v ∈ varsOf ts) (t : Term) :
    ((ts ++ [t]).map (·.var)).idxOf v = (ts.map (·.var)).idxOf v := by
  rw [List.map_append, List.idxOf_append_of_mem (mem_varsOf.1 h)]

/-- A variable that did not occur first occurs in the last term. -/
lemma idxOf_concat_self {t : Term} (h : t.var ∉ varsOf ts) :
    ((ts ++ [t]).map (·.var)).idxOf t.var = ts.length := by
  rw [List.map_append, List.idxOf_append_of_notMem (mt mem_varsOf.2 h), List.length_map]
  exact Nat.add_eq_left.2 List.idxOf_cons_self

/-- The variables of terms are collected in the order in which they first occur. -/
lemma varsOf_pairwise (ts : List Term) : (varsOf ts).Pairwise (OccursBefore ts) := by
  induction ts using List.reverseRecOn with
  | nil => exact .nil
  | append_singleton ts t ih =>
    have hkeep : (varsOf ts).Pairwise (OccursBefore (ts ++ [t])) := by
      refine ih.imp_of_mem fun hv hw hbefore => ?_
      rw [OccursBefore, idxOf_concat hv, idxOf_concat hw]
      exact hbefore
    rw [varsOf_concat]
    split
    · exact hkeep
    next ht =>
      refine List.pairwise_append.2 ⟨hkeep, List.pairwise_singleton _ _, fun v hv w hw => ?_⟩
      obtain rfl := List.mem_singleton.1 hw
      rw [OccursBefore, idxOf_concat hv, idxOf_concat_self ht, ← List.length_map (·.var)]
      exact List.idxOf_lt_length_of_mem (mem_varsOf.1 hv)

/-! ## Sums of all variables in one pass -/

/-- Adds the coefficient of a term to the sum of its variable. -/
def accumulate (sums : Var → Coeff) (t : Term) : Except ValueError (Var → Coeff) :=
  ((sums t.var).add t.coeff).map (Function.update sums t.var)

/-- A term takes part in the sum of its own variable only. -/
lemma filter_var_cons (v : Var) (t : Term) (ts : List Term) :
    ((t :: ts).filter fun u => u.var = v) =
      if t.var = v then t :: ts.filter fun u => u.var = v else ts.filter fun u => u.var = v := by
  rw [List.filter_cons]
  simp only [decide_eq_true_eq]

/-- A pass over the terms adds up the coefficients of each variable. -/
lemma foldlM_accumulate_eq_ok_iff {sums sums' : Var → Coeff} :
    ts.foldlM accumulate sums = .ok sums' ↔ ∀ v, (ts.filter fun t => t.var = v).foldlM
      (fun sum t => sum.add t.coeff) (sums v) = .ok (sums' v) := by
  induction ts generalizing sums with
  | nil =>
    constructor
    · rintro h v
      cases h
      rfl
    · exact fun h => congrArg Except.ok (funext fun v => Except.ok.inj (h v))
  | cons t ts ih =>
    simp only [filter_var_cons]
    rw [List.foldlM_cons, bind_eq_ok]
    constructor
    · rintro ⟨next, hnext, hrest⟩ v
      obtain ⟨sum, hsum, rfl⟩ := map_eq_ok.1 hnext
      have hv := ih.1 hrest v
      split
      next hvar =>
        subst hvar
        rw [Function.update_self] at hv
        exact bind_eq_ok.2 ⟨sum, hsum, hv⟩
      next hvar => rwa [Function.update_of_ne (Ne.symm hvar)] at hv
    · intro h
      -- the sum of the first variable is formed now, those of the others wait for their terms
      have hself := h t.var
      rw [if_pos rfl, List.foldlM_cons, bind_eq_ok] at hself
      obtain ⟨sum, hsum, hrest⟩ := hself
      refine ⟨_, map_eq_ok.2 ⟨sum, hsum, rfl⟩, ih.2 fun v => ?_⟩
      by_cases hvar : t.var = v
      · subst hvar
        rwa [Function.update_self]
      · have hv := h v
        rw [if_neg hvar] at hv
        rwa [Function.update_of_ne (Ne.symm hvar)]

/-- The sums of a pass are those that are found variable by variable. -/
lemma accumulate_eq_ok_iff {sums : Var → Coeff} :
    ts.foldlM accumulate (fun _ => 0) = .ok sums ↔ ∀ v, coeffOf v ts = .ok (sums v) :=
  foldlM_accumulate_eq_ok_iff

/-- The sum of a variable that the terms do not mention is found to be zero. -/
lemma coeffOf_of_notMem (h : v ∉ varsOf ts) : coeffOf v ts = .ok 0 := by
  rw [coeffOf, filter_var_eq_nil (mt mem_varsOf.2 h)]
  rfl

/-- **Merging is one pass over the terms**, after which the sums are read off in the order in which
the variables first occur, without those that are zero. -/
lemma merge_eq_ok_iff_accumulate : merge ts = .ok ms ↔
    ∃ sums, ts.foldlM accumulate (fun _ => 0) = .ok sums ∧
      ms = ((varsOf ts).map fun v => (⟨sums v, v⟩ : Term)).filter fun t => t.coeff ≠ 0 := by
  simp only [accumulate_eq_ok_iff]
  constructor
  · intro h
    obtain ⟨found, hvars, hcoeffs, rfl⟩ := exists_sums_of_merge h
    have hall : ∀ v, ∃ c, coeffOf v ts = .ok c := by
      intro v
      by_cases hv : v ∈ varsOf ts
      · rw [← hvars] at hv
        obtain ⟨s, hs, rfl⟩ := List.mem_map.1 hv
        exact ⟨s.coeff, hcoeffs s hs⟩
      · exact ⟨0, coeffOf_of_notMem hv⟩
    choose sums hsums using hall
    refine ⟨sums, hsums, ?_⟩
    rw [← hvars, List.map_map]
    congr 1
    refine (List.map_id' found).symm.trans (List.map_congr_left fun s hs => ?_)
    rw [Function.comp_apply, ← Except.ok.inj ((hcoeffs s hs).symm.trans (hsums s.var))]
  · rintro ⟨sums, hsums, rfl⟩
    refine merge_eq_ok.2 ⟨_, ?_, rfl⟩
    rw [List.forall₂_map_right_iff]
    exact List.forall₂_same.2 fun v _ => ⟨rfl, hsums v⟩

/-! ## Merged terms by their totals -/

/-- A merged term has the total of its variable as its coefficient, which is not zero. -/
lemma coeff_of_mem_merge (h : merge ts = .ok ms) {m : Term} (hm : m ∈ ms) :
    m.coeff ≠ 0 ∧ m.coeff.val = total m.var ts := by
  obtain ⟨sums, -, hcoeffs, rfl⟩ := exists_sums_of_merge h
  obtain ⟨hmem, hne⟩ := List.mem_filter.1 hm
  exact ⟨of_decide_eq_true hne, val_of_coeffOf (hcoeffs m hmem)⟩

/-- A variable is missing from the merged terms exactly if its total is zero. -/
lemma notMem_merge_iff (h : merge ts = .ok ms) : v ∉ ms.map (·.var) ↔ total v ts = 0 := by
  constructor
  · intro hv
    by_cases hmem : v ∈ ts.map (·.var)
    · obtain ⟨sums, hvars, hcoeffs, rfl⟩ := exists_sums_of_merge h
      rw [← mem_varsOf, ← hvars] at hmem
      obtain ⟨s, hs, rfl⟩ := List.mem_map.1 hmem
      have hzero : s.coeff = 0 := by
        by_contra hne
        exact hv (List.mem_map_of_mem (List.mem_filter.2 ⟨hs, decide_eq_true hne⟩))
      rw [total, ← val_of_coeffOf (hcoeffs s hs), hzero, Coeff.val_zero]
    · exact total_of_notMem hmem
  · intro hzero hv
    obtain ⟨m, hm, rfl⟩ := List.mem_map.1 hv
    obtain ⟨hne, htotal⟩ := coeff_of_mem_merge h hm
    rw [hzero, ← Coeff.val_zero] at htotal
    exact hne (Coeff.ext htotal)

/-- The variables of merged terms stand in the order in which they first occur. -/
lemma merge_pairwise (h : merge ts = .ok ms) :
    ms.Pairwise fun s t => OccursBefore ts s.var t.var := by
  obtain ⟨sums, hvars, -, rfl⟩ := exists_sums_of_merge h
  have hsums : sums.Pairwise fun s t => OccursBefore ts s.var t.var := by
    rw [← List.pairwise_map, hvars]
    exact varsOf_pairwise ts
  exact hsums.filter _

/-- Merged terms are merged already. -/
lemma merge_merge (h : merge ts = .ok ms) : merge ms = .ok ms := by
  have hkeep : (ms.filter fun t => t.coeff ≠ 0) = ms := by
    rw [List.filter_eq_self]
    exact fun m hm => decide_eq_true (coeff_of_mem_merge h hm).1
  rw [merge_of_nodup (nodup_merge h), hkeep]

end Term

/-- **Merging is exact.**  If the terms of a constraint are merged, the variables of the merged
terms are different and stand in the order in which they first occur in the constraint.  The
coefficients are not zero, they are what the terms give to the variables in exact arithmetic, and a
variable is missing exactly if this is zero; so the sum has the same value under every assignment.
A constraint built from the merged terms is merged to them again, and their number is the arity. -/
theorem LinConstraint.merged_exact {c : LinConstraint} {ms : List Term} (h : c.merged = .ok ms) :
    (ms.map (·.var)).Nodup ∧
      ms.Pairwise (fun s t => Term.OccursBefore c.terms s.var t.var) ∧
      (∀ m ∈ ms, m.coeff ≠ 0 ∧ m.coeff.val = Term.total m.var c.terms) ∧
      (∀ v, v ∉ ms.map (·.var) ↔ Term.total v c.terms = 0) ∧
      (∀ value, Term.sumAt value ms = Term.sumAt value c.terms) ∧
      (∀ rel rhs, (⟨ms, rel, rhs⟩ : LinConstraint).merged = .ok ms) ∧
      c.arity = .ok ms.length :=
  ⟨Term.nodup_merge h, Term.merge_pairwise h, fun _ hm => Term.coeff_of_mem_merge h hm,
    fun _ => Term.notMem_merge_iff h, fun _ => Term.sumAt_merge h,
    fun _ _ => Term.merge_merge h, by rw [LinConstraint.arity_eq, h]; rfl⟩

/-- The constraint `y + 1/2 x + z - 1/2 x + z <= 0`. -/
def LinConstraint.withRepeats : LinConstraint where
  terms := [⟨1, ⟨21, by decide⟩⟩, ⟨⟨1 / 2, by decide +kernel⟩, ⟨20, by decide⟩⟩,
    ⟨1, ⟨22, by decide⟩⟩, ⟨⟨-1 / 2, by decide +kernel⟩, ⟨20, by decide⟩⟩, ⟨1, ⟨22, by decide⟩⟩]
  rel := .le
  rhs := 0

/-- Where one variable cancels out and another one is repeated, two terms are left. -/
theorem LinConstraint.merged_exact_withRepeats :
    LinConstraint.withRepeats.merged = .ok [⟨1, ⟨21, by decide⟩⟩, ⟨.ofWord 2, ⟨22, by decide⟩⟩] ∧
      Term.total ⟨20, by decide⟩ LinConstraint.withRepeats.terms = 0 ∧
      Term.total ⟨22, by decide⟩ LinConstraint.withRepeats.terms = 2 ∧
      LinConstraint.withRepeats.arity = .ok 2 := by
  have hmerged : LinConstraint.withRepeats.merged =
      .ok [⟨1, ⟨21, by decide⟩⟩, ⟨.ofWord 2, ⟨22, by decide⟩⟩] := by decide +kernel
  obtain ⟨-, -, hcoeffs, hmissing, -, -, harity⟩ := LinConstraint.merged_exact hmerged
  refine ⟨hmerged, (hmissing _).1 (by decide), ?_, harity⟩
  exact (hcoeffs _ (List.mem_cons_of_mem _ List.mem_cons_self)).2.symm

end LinearInterchange
