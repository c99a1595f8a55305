import LinearInterchange.Constraint
import LinearInterchange.Proofs.Arithmetic
import Mathlib.Algebra.BigOperators.Ring.List
import Mathlib.Data.List.Nodup

/-!
# Sums of terms and their merged forms

`Term.sumAt` is the exact value of a sum of terms under an assignment of integers.  Merging the
terms of one variable either overflows or gives a sum with the same values in which every variable
stands once (`sumAt_merge`, `nodup_merge`).  Terms that are over different variables to begin with
are merged without any overflow (`merge_of_nodup`), because each sum has one summand.
-/

namespace LinearInterchange.Term

variable {ts ms : List Term} {value other : Var → ℤ}

/-! ## Values of sums -/

/-- The exact value of a sum of terms under an assignment. -/
def sumAt (value : Var → ℤ) (ts : List Term) : ℚ :=
  (ts.map fun t => t.coeff.val * (value t.var : ℚ)).sum

@[simp] lemma sumAt_nil : sumAt value [] = 0 := rfl

@[simp] lemma sumAt_cons (t : Term) :
    sumAt value (t :: ts) = t.coeff.val * value t.var + sumAt value ts :=
  List.sum_cons

lemma sumAt_congr (h : ∀ t ∈ ts, value t.var = other t.var) :
    sumAt value ts = sumAt other ts := by
  unfold sumAt
  rw [List.map_congr_left fun t ht => by rw [h t ht]]

/-- Terms with the coefficient zero do not count. -/
lemma sumAt_filter_ne_zero (ts : List Term) :
    sumAt value (ts.filter fun t => t.coeff ≠ 0) = sumAt value ts := by
  induction ts with
  | nil => rfl
  | cons t ts ih =>
    by_cases ht : t.coeff = 0
    · rw [List.filter_cons_of_neg (by simpa using ht), ih, sumAt_cons, ht, Coeff.val_zero,
        zero_mul, zero_add]
    · rw [List.filter_cons_of_pos (by simpa using ht), sumAt_cons, sumAt_cons, ih]

/-! ## The variables of a sum -/

/-- Collecting the variables of terms keeps the collected ones apart and reaches all of them. -/
lemma collect_vars (ts : List Term) {vs : List Var} (hvs : vs.Nodup) :
    (ts.foldl (fun vs t => if t.var ∈ vs then vs else vs ++ [t.var]) vs).Nodup ∧
      ∀ v, v ∈ ts.foldl (fun vs t => if t.var ∈ vs then vs else vs ++ [t.var]) vs ↔
        v ∈ vs ∨ v ∈ ts.map (·.var) := by
  induction ts generalizing vs with
  | nil => simp [hvs]
  | cons t ts ih =>
    rw [List.foldl_cons]
    by_cases ht : t.var ∈ vs
    · rw [if_pos ht]
      refine ⟨(ih hvs).1, fun v => ?_⟩
      rw [(ih hvs).2, List.map_cons, List.mem_cons]
      constructor
      · rintro (h | h)
        · exact .inl h
        · exact .inr (.inr h)
      · rintro (h | rfl | h)
        · exact .inl h
        · exact .inl ht
        · exact .inr h
    · rw [if_neg ht]
      have hnodup : (vs ++ [t.var]).Nodup := by
        rw [← List.concat_eq_append]
        exact hvs.concat ht
      refine ⟨(ih hnodup).1, fun v => ?_⟩
      rw [(ih hnodup).2, List.mem_append, List.mem_singleton, List.map_cons, List.mem_cons,
        or_assoc]

/-- The variables of terms are collected once each. -/
lemma nodup_varsOf (ts : List Term) : (varsOf ts).Nodup :=
  (collect_vars ts .nil).1

/-- The collected variables are those of the terms. -/
lemma mem_varsOf {v : Var} : v ∈ varsOf ts ↔ v ∈ ts.map (·.var) := by
  rw [varsOf, (collect_vars ts .nil).2]
  simp

/-- Different variables are collected in the order of the terms. -/
lemma varsOf_of_nodup (h : (ts.map (·.var)).Nodup) : varsOf ts = ts.map (·.var) := by
  have hfold : ∀ (us : List Term) (vs : List Var), (vs ++ us.map (·.var)).Nodup →
      us.foldl (fun vs t => if t.var ∈ vs then vs else vs ++ [t.var]) vs
        = vs ++ us.map (·.var) := by
    intro us
    induction us with
    | nil => intro vs _; simp
    | cons u us ih =>
      intro vs hvs
      have hu : u.var ∉ vs := fun hmem =>
        List.disjoint_of_nodup_append hvs hmem List.mem_cons_self
      rw [List.foldl_cons, if_neg hu, ih (vs ++ [u.var])]
      · simp
      · simpa using hvs
  unfold varsOf
  rw [hfold ts [] h, List.nil_append]

/-! ## The coefficient of a variable -/

/-- Coefficients that are added up without an overflow give their exact sum. -/
lemma val_of_foldlM_add {us : List Term} {sum c : Coeff}
    (h : us.foldlM (fun sum t => sum.add t.coeff) sum = .ok c) :
    c.val = sum.val + (us.map (·.coeff.val)).sum := by
  induction us generalizing sum with
  | nil =>
    cases h
    simp
  | cons u us ih =>
    rw [List.foldlM_cons] at h
    obtain ⟨sum', hadd, h⟩ := bind_eq_ok.1 h
    rw [ih h, Coeff.val_of_add hadd, List.map_cons, List.sum_cons, add_assoc]

/-- Integers that are added up give an integer. -/
lemma isInteger_of_foldlM_add {us : List Term} {sum c : Coeff} (hsum : sum.isInteger = true)
    (hus : ∀ u ∈ us, u.coeff.isInteger = true)
    (h : us.foldlM (fun sum t => sum.add t.coeff) sum = .ok c) : c.isInteger = true := by
  induction us generalizing sum with
  | nil =>
    cases h
    exact hsum
  | cons u us ih =>
    rw [List.foldlM_cons] at h
    obtain ⟨sum', hadd, h⟩ := bind_eq_ok.1 h
    have hsum' := Coeff.isInteger_of_add hsum (hus u List.mem_cons_self) hadd
    exact ih hsum' (fun u' hu' => hus u' (List.mem_cons_of_mem _ hu')) h

/-- The coefficient of a variable is the exact sum of what the terms give to it. -/
lemma val_of_coeffOf {v : Var} {c : Coeff} (h : coeffOf v ts = .ok c) :
    c.val = ((ts.filter fun t => t.var = v).map (·.coeff.val)).sum := by
  rw [val_of_foldlM_add h, Coeff.val_zero, zero_add]

/-- Where the variables of the terms are different, the coefficient of a variable is that of its
only term. -/
lemma coeffOf_of_nodup (h : (ts.map (·.var)).Nodup) {t : Term} (ht : t ∈ ts) :
    coeffOf t.var ts = .ok t.coeff := by
  have hfilter : ts.filter (fun u => u.var = t.var) = [t] := by
    have hpred : ∀ u ∈ ts, decide (u.var = t.var) = (u == t) := by
      intro u hu
      rw [Bool.eq_iff_iff, decide_eq_true_eq, beq_iff_eq]
      exact ⟨fun heq => List.inj_on_of_nodup_map h hu ht heq, fun heq => by rw [heq]⟩
    rw [List.filter_congr hpred, List.filter_beq, List.count_eq_one_of_mem h.of_map ht]
    rfl
  unfold coeffOf
  rw [hfilter, List.foldlM_cons, Coeff.zero_add_eq_ok]
  rfl

/-! ## Merged sums -/

/-- Merging succeeds when every coefficient can be added up; what remains are the terms that do
not cancel out. -/
lemma merge_eq_ok : merge ts = .ok ms ↔ ∃ sums : List Term,
    List.Forall₂ (fun v s => s.var = v ∧ coeffOf v ts = .ok s.coeff) (varsOf ts) sums ∧
      ms = sums.filter fun t => t.coeff ≠ 0 := by
  have hstep : ∀ (v : Var) (s : Term),
      (do return (⟨← coeffOf v ts, v⟩ : Term)) = Except.ok s ↔
        s.var = v ∧ coeffOf v ts = .ok s.coeff := by
    intro v s
    rw [bind_eq_ok]
    constructor
    · rintro ⟨c, hc, h⟩
      cases h
      exact ⟨rfl, hc⟩
    · rintro ⟨rfl, hc⟩
      exact ⟨s.coeff, hc, rfl⟩
  unfold merge
  rw [bind_eq_ok]
  constructor
  · rintro ⟨sums, hsums, h⟩
    cases h
    exact ⟨sums, (mapM_eq_ok.1 hsums).imp fun v s => (hstep v s).1, rfl⟩
  · rintro ⟨sums, hsums, rfl⟩
    exact ⟨sums, mapM_eq_ok.2 (hsums.imp fun v s => (hstep v s).2), rfl⟩

/-- The sums that merging goes through are over the variables of the terms, in their order. -/
lemma map_var_of_forall₂ {vs : List Var} {sums : List Term}
    (h : List.Forall₂ (fun v s => s.var = v ∧ coeffOf v ts = .ok s.coeff) vs sums) :
    sums.map (·.var) = vs ∧ ∀ s ∈ sums, coeffOf s.var ts = .ok s.coeff := by
  induction h with
  | nil => simp
  | cons hs _ ih =>
    obtain ⟨rfl, hcoeff⟩ := hs
    refine ⟨by rw [List.map_cons, ih.1], ?_⟩
    intro s' hs'
    rcases List.mem_cons.1 hs' with rfl | hs'
    · exact hcoeff
    · exact ih.2 s' hs'

/-- A merged sum comes from one sum for each variable, without those that are zero. -/
lemma exists_sums_of_merge (h : merge ts = .ok ms) : ∃ sums : List Term,
    sums.map (·.var) = varsOf ts ∧ (∀ s ∈ sums, coeffOf s.var ts = .ok s.coeff) ∧
      ms = sums.filter fun t => t.coeff ≠ 0 := by
  obtain ⟨sums, hsums, hms⟩ := merge_eq_ok.1 h
  obtain ⟨hvars, hcoeffs⟩ := map_var_of_forall₂ hsums
  exact ⟨sums, hvars, hcoeffs, hms⟩

lemma nodup_merge (h : merge ts = .ok ms) : (ms.map (·.var)).Nodup := by
  obtain ⟨sums, hvars, -, rfl⟩ := exists_sums_of_merge h
  have hnodup : (sums.map (·.var)).Nodup := hvars ▸ nodup_varsOf ts
  exact hnodup.sublist (List.filter_sublist.map _)

/-- The variables of a merged sum are among those of the terms. -/
lemma mem_of_mem_merge (h : merge ts = .ok ms) {m : Term} (hm : m ∈ ms) :
    m.var ∈ ts.map (·.var) := by
  obtain ⟨sums, hvars, -, rfl⟩ := exists_sums_of_merge h
  rw [← mem_varsOf, ← hvars]
  exact List.mem_map_of_mem (List.mem_of_mem_filter hm)

/-- Merging integers gives integers. -/
lemma isInteger_merge (h : merge ts = .ok ms) (hts : ∀ t ∈ ts, t.coeff.isInteger = true) :
    ∀ m ∈ ms, m.coeff.isInteger = true := by
  obtain ⟨sums, -, hcoeffs, rfl⟩ := exists_sums_of_merge h
  intro m hm
  refine isInteger_of_foldlM_add Coeff.isInteger_zero ?_ (hcoeffs m (List.mem_of_mem_filter hm))
  intro t ht
  exact hts t (List.mem_of_mem_filter ht)

/-- Summing up variable by variable is summing up. -/
lemma sum_by_var {vs : List Var} (hvs : vs.Nodup) (hmem : ∀ t ∈ ts, t.var ∈ vs)
    (f : Term → ℚ) :
    (vs.map fun v => ((ts.filter fun t => t.var = v).map f).sum).sum = (ts.map f).sum := by
  induction ts with
  | nil => simp
  | cons t ts ih =>
    have hsplit : ∀ v, (((t :: ts).filter fun t => t.var = v).map f).sum
        = (if v = t.var then f t else 0) + ((ts.filter fun t => t.var = v).map f).sum := by
      intro v
      by_cases hv : v = t.var
      · simp [hv]
      · simp [hv, Ne.symm hv]
    have hone : vs.count t.var = 1 := List.count_eq_one_of_mem hvs (hmem t List.mem_cons_self)
    simp only [hsplit]
    rw [List.sum_map_add, List.sum_map_ite_eq, hone,
      ih fun t' ht' => hmem t' (List.mem_cons_of_mem _ ht')]
    simp

/-- **A merged sum has the values of the sum.** -/
lemma sumAt_merge (h : merge ts = .ok ms) : sumAt value ms = sumAt value ts := by
  obtain ⟨sums, hvars, hcoeffs, rfl⟩ := exists_sums_of_merge h
  have hterm : ∀ s ∈ sums, s.coeff.val * value s.var =
      ((ts.filter fun t => t.var = s.var).map fun t => t.coeff.val * (value t.var : ℚ)).sum := by
    intro s hs
    rw [val_of_coeffOf (hcoeffs s hs), ← List.sum_map_mul_right]
    refine congrArg List.sum (List.map_congr_left fun t ht => ?_)
    have hvar : t.var = s.var := by simpa using (List.mem_filter.1 ht).2
    rw [hvar]
  calc sumAt value (sums.filter fun t => t.coeff ≠ 0)
      = sumAt value sums := sumAt_filter_ne_zero sums
    _ = ((sums.map (·.var)).map fun v =>
          ((ts.filter fun t => t.var = v).map fun t =>
            t.coeff.val * (value t.var : ℚ)).sum).sum := by
        rw [List.map_map]
        exact congrArg List.sum (List.map_congr_left hterm)
    _ = sumAt value ts := by
        rw [hvars]
        exact sum_by_var (nodup_varsOf ts) (fun t ht => mem_varsOf.2 (List.mem_map_of_mem ht)) _

/-- Terms over different variables are merged without an overflow; only those with the coefficient
zero go. -/
lemma merge_of_nodup (h : (ts.map (·.var)).Nodup) :
    merge ts = .ok (ts.filter fun t => t.coeff ≠ 0) := by
  refine merge_eq_ok.2 ⟨ts, ?_, rfl⟩
  rw [varsOf_of_nodup h, List.forall₂_map_left_iff]
  exact List.forall₂_same.2 fun t ht => ⟨rfl, coeffOf_of_nodup h ht⟩

end LinearInterchange.Term
