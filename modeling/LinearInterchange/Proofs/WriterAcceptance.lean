import LinearInterchange.Proofs.ClingconListing
import LinearInterchange.Proofs.FactsListing
import LinearInterchange.Proofs.SolverOutput

/-!
# Which instances the writers for solvers accept

The writers for aspartame, clingcon and Sugar check an instance before they emit anything.  Each
check finds out one condition (`guards_checkArity`, `guards_checkIntegral`,
`guards_objectiveDirection`, `Sugar.guards_checkNames`, `Sugar.guards_objectiveRange`), and what
comes after the checks cannot be refused any more.  So an instance is accepted exactly if all
conditions hold, whatever else is wrong with it, and nothing is emitted of any other one.
-/

namespace LinearInterchange

/-! ## Conditions -/

namespace Instance

/-- Merging overflows for no constraint, and no constraint has more than three merged terms. -/
def HasFewVariables (inst : Instance) : Prop :=
  ∀ c ∈ inst.constrs, ∃ ms, c.merged = .ok ms ∧ ms.length ≤ 3

/-- There is no objective, or it has a direction. -/
def HasDirection (inst : Instance) : Prop :=
  inst.objective.terms = [] ∨ inst.objective.direction ≠ .unspecified

end Instance

namespace Sugar

/-- The domain over which the range of a term is computed. -/
def domainOf (inst : Instance) (t : Term) : Domain :=
  (inst.domain? t.var).getD .bool

/-- The ranges of all terms of a sum and the ranges of all sums on the way have words for their
ends. -/
structure RangesFit (inst : Instance) (ts : List Term) : Prop where
  /-- The ends of the range of a term are words. -/
  terms : ∀ t ∈ ts, Coeff.IsWord (t.lowest (domainOf inst t)) ∧
    Coeff.IsWord (t.highest (domainOf inst t))
  /-- The ends of the range of a sum on the way are words. -/
  sums : ∀ us, us <+: ts → Coeff.IsWord (us.map fun t => t.lowest (domainOf inst t)).sum ∧
    Coeff.IsWord (us.map fun t => t.highest (domainOf inst t)).sum

variable {inst : Instance} {ts : List Term}

/-- One step of the computation of a range. -/
def addRange (inst : Instance) (range : Coeff × Coeff) (t : Term) :
    Except ValueError (Coeff × Coeff) := do
  let (tlo, thi) ← t.valueRange (domainOf inst t)
  return (← range.1.add tlo, ← range.2.add thi)

/-- A step gives the exact ends, which are integers again. -/
lemma addRange_ok {range r : Coeff × Coeff} {t : Term} (ht : t.coeff.isInteger = true)
    (hlo : range.1.isInteger = true) (hhi : range.2.isInteger = true)
    (h : addRange inst range t = .ok r) :
    r.1.val = range.1.val + t.lowest (domainOf inst t) ∧
      r.2.val = range.2.val + t.highest (domainOf inst t) ∧
      r.1.isInteger = true ∧ r.2.isInteger = true := by
  obtain ⟨⟨tlo, thi⟩, hrange, h⟩ := bind_eq_ok.1 h
  obtain ⟨lo, hlo', h⟩ := bind_eq_ok.1 h
  obtain ⟨hi, hhi', h⟩ := bind_eq_ok.1 h
  obtain rfl := Except.ok.inj h
  obtain ⟨htlo, hthi⟩ := Term.valueRange_ok hrange
  obtain ⟨hintlo, hinthi⟩ := Term.isInteger_valueRange hrange ht
  rw [← htlo, ← hthi]
  exact ⟨Coeff.val_of_add hlo', Coeff.val_of_add hhi', Coeff.isInteger_of_add hlo hintlo hlo',
    Coeff.isInteger_of_add hhi hinthi hhi'⟩

/-- A step succeeds exactly if the ends of the term and the new ends are words. -/
lemma exists_addRange_iff {range : Coeff × Coeff} {t : Term} (ht : t.coeff.isInteger = true)
    (hlo : range.1.isInteger = true) (hhi : range.2.isInteger = true) :
    (∃ r, addRange inst range t = .ok r) ↔
      (Coeff.IsWord (t.lowest (domainOf inst t)) ∧ Coeff.IsWord (t.highest (domainOf inst t))) ∧
      Coeff.IsWord (range.1.val + t.lowest (domainOf inst t)) ∧
      Coeff.IsWord (range.2.val + t.highest (domainOf inst t)) := by
  rw [← Term.exists_valueRange_iff ht]
  constructor
  · rintro ⟨r, h⟩
    obtain ⟨hlo', hhi', hint₁, hint₂⟩ := addRange_ok ht hlo hhi h
    obtain ⟨range', hrange, -⟩ := bind_eq_ok.1 h
    rw [← hlo', ← hhi']
    exact ⟨⟨_, hrange⟩, Coeff.isWord_of_isInteger hint₁, Coeff.isWord_of_isInteger hint₂⟩
  · rintro ⟨⟨⟨tlo, thi⟩, hrange⟩, hsumlo, hsumhi⟩
    obtain ⟨htlo, hthi⟩ := Term.valueRange_ok hrange
    obtain ⟨hintlo, hinthi⟩ := Term.isInteger_valueRange hrange ht
    rw [← htlo, ← Coeff.exists_add_eq_ok_iff hlo hintlo] at hsumlo
    rw [← hthi, ← Coeff.exists_add_eq_ok_iff hhi hinthi] at hsumhi
    obtain ⟨lo, hlo'⟩ := hsumlo
    obtain ⟨hi, hhi'⟩ := hsumhi
    exact ⟨(lo, hi), bind_eq_ok.2
      ⟨_, hrange, bind_eq_ok.2 ⟨lo, hlo', bind_eq_ok.2 ⟨hi, hhi', rfl⟩⟩⟩⟩

/-- Steps succeed exactly if the ends of all terms and all ends on the way are words. -/
lemma exists_foldlM_addRange_iff {range : Coeff × Coeff}
    (hts : ∀ t ∈ ts, t.coeff.isInteger = true)
    (hlo : range.1.isInteger = true) (hhi : range.2.isInteger = true) :
    (∃ r, ts.foldlM (addRange inst) range = .ok r) ↔
      (∀ t ∈ ts, Coeff.IsWord (t.lowest (domainOf inst t)) ∧
        Coeff.IsWord (t.highest (domainOf inst t))) ∧
      ∀ us, us <+: ts →
        Coeff.IsWord (range.1.val + (us.map fun t => t.lowest (domainOf inst t)).sum) ∧
        Coeff.IsWord (range.2.val + (us.map fun t => t.highest (domainOf inst t)).sum) := by
  induction ts generalizing range with
  | nil =>
    refine ⟨fun _ => ⟨List.forall_mem_nil _, fun us hus => ?_⟩, fun _ => ⟨range, rfl⟩⟩
    obtain rfl := List.prefix_nil.1 hus
    simp only [List.map_nil, List.sum_nil, add_zero]
    exact ⟨Coeff.isWord_of_isInteger hlo, Coeff.isWord_of_isInteger hhi⟩
  | cons t ts ih =>
    rw [List.forall_mem_cons] at hts ⊢
    have hstep : (∃ r, addRange inst range t = .ok r) ↔ _ := exists_addRange_iff hts.1 hlo hhi
    simp only [List.foldlM_cons, bind_eq_ok]
    constructor
    · rintro ⟨r, next, hnext, hrest⟩
      obtain ⟨hterm, -⟩ := hstep.1 ⟨next, hnext⟩
      obtain ⟨hnextlo, hnexthi, hint₁, hint₂⟩ := addRange_ok hts.1 hlo hhi hnext
      obtain ⟨hterms, hsums⟩ := (ih hts.2 hint₁ hint₂).1 ⟨r, hrest⟩
      refine ⟨⟨hterm, hterms⟩, fun us hus => ?_⟩
      rcases List.prefix_cons_iff.1 hus with rfl | ⟨us, rfl, hus'⟩
      · simp only [List.map_nil, List.sum_nil, add_zero]
        exact ⟨Coeff.isWord_of_isInteger hlo, Coeff.isWord_of_isInteger hhi⟩
      · have hsum := hsums us hus'
        rw [hnextlo, hnexthi, add_assoc, add_assoc] at hsum
        exact hsum
    · rintro ⟨⟨hterm, hterms⟩, hsums⟩
      have hone := hsums [t] (List.prefix_append [t] ts)
      simp only [List.map_cons, List.map_nil, List.sum_cons, List.sum_nil, add_zero] at hone
      -- the shortest prefixes speak of this step, the longer ones of the steps after it
      obtain ⟨next, hnext⟩ := hstep.2 ⟨hterm, hone⟩
      obtain ⟨hnextlo, hnexthi, hint₁, hint₂⟩ := addRange_ok hts.1 hlo hhi hnext
      obtain ⟨r, hrest⟩ := (ih hts.2 hint₁ hint₂).2 ⟨hterms, fun us hus => by
        rw [hnextlo, hnexthi, add_assoc, add_assoc]
        exact hsums (t :: us) (List.cons_prefix_cons.2 ⟨rfl, hus⟩)⟩
      exact ⟨r, next, hnext, hrest⟩

/-- **The range of a sum of integers** is found exactly if the ranges of its terms and of all sums
on the way fit. -/
lemma exists_sumRange_iff (hts : ∀ t ∈ ts, t.coeff.isInteger = true) :
    (∃ r, sumRange inst ts = .ok r) ↔ RangesFit inst ts := by
  have h : (∃ r, ts.foldlM (addRange inst) (0, 0) = .ok r) ↔ _ :=
    exists_foldlM_addRange_iff hts Coeff.isInteger_zero Coeff.isInteger_zero
  simp only [Coeff.val_zero, zero_add] at h
  exact h.trans ⟨fun ⟨hterms, hsums⟩ => ⟨hterms, hsums⟩, fun ⟨hterms, hsums⟩ => ⟨hterms, hsums⟩⟩

end Sugar

/-! ## Checks -/

namespace Emit

variable {inst : Instance}

/-- The check for a direction where there is no default. -/
lemma guards_objectiveDirection (format : String) :
    Guards (objectiveDirection format none inst) inst.HasDirection := by
  unfold Instance.HasDirection
  rcases objectiveDirection_none inst format with ⟨hne, hd, hthrow⟩ | ⟨hnot, hret⟩
  · exact .inr ⟨fun h => h.elim hne fun h => h hd, _, hthrow⟩
  · exact .inl ⟨by rwa [not_and_or, not_not] at hnot, hret⟩

end Emit

open Emit

namespace Sugar

variable {inst : Instance}

/-- The check of names. -/
lemma guards_checkNames :
    Guards (checkNames inst) (∀ x ∈ inst.vars, isSymbol x.name = true) := by
  unfold checkNames
  cases hfind : inst.names.find? fun name => !isSymbol name with
  | some name =>
    refine (Guards.throw _).congr ⟨False.elim, fun hall => ?_⟩
    obtain ⟨x, hx, rfl⟩ := List.mem_map.1 (List.mem_of_find?_eq_some hfind)
    have hnot := List.find?_some hfind
    rw [hall x hx] at hnot
    cases hnot
  | none =>
    refine (Guards.pure ()).congr ⟨fun _ x hx => ?_, fun _ => True.intro⟩
    simpa using List.find?_eq_none.1 hfind x.name (List.mem_map_of_mem hx)

/-- The check of the range of the objective. -/
lemma guards_objectiveRange (direction : Option Direction) :
    Guards (objectiveRange inst direction)
      (direction = none ∨ ∃ r, sumRange inst inst.objective.terms = .ok r) := by
  unfold objectiveRange
  cases direction with
  | none => exact (Guards.pure _).congr ⟨fun _ => .inl rfl, fun _ => True.intro⟩
  | some d =>
    cases hrange : sumRange inst inst.objective.terms with
    | ok r => exact (Guards.pure _).congr ⟨fun _ => .inr ⟨r, rfl⟩, fun _ => True.intro⟩
    | error e =>
      refine (Guards.throw _).congr ⟨False.elim, ?_⟩
      rintro (h | ⟨r, h⟩) <;> cases h

end Sugar

/-! ## Writers -/

section Writers

variable {inst : Instance}

/-- The writer for aspartame. -/
lemma Asp.Facts.writes_encode (hcs : ∀ c ∈ inst.constrs, inst.DeclaresAll c.terms)
    (ho : inst.DeclaresAll inst.objective.terms) :
    Writes (Asp.Facts.encode inst)
      (inst.HasFewVariables ∧ inst.IsIntegral ∧ inst.HasDirection) := by
  refine Writes.after (guards_checkArity "aspartame" 3) fun _ _ => ?_
  refine Writes.after (guards_checkIntegral "aspartame") fun _ _ => ?_
  exact Writes.of_guards (guards_objectiveDirection "aspartame") (succeeds_body hcs ho)

/-- The writer for clingcon. -/
lemma Asp.Clingcon.writes_encode (hcs : ∀ c ∈ inst.constrs, inst.DeclaresAll c.terms)
    (ho : inst.DeclaresAll inst.objective.terms) (fallback : Direction) :
    Writes (Asp.Clingcon.encode fallback inst) (inst.HasFewVariables ∧ inst.IsIntegral) := by
  refine Writes.after (guards_checkArity "casp" 3) fun _ _ => ?_
  refine Writes.of_guards (guards_checkIntegral "casp") fun _ => ?_
  exact (returns_objectiveDirection "casp" fallback).bind (succeeds_body hcs ho)

/-- The writer for Sugar. -/
lemma Sugar.writes_encode (hcs : ∀ c ∈ inst.constrs, inst.DeclaresAll c.terms)
    (ho : inst.DeclaresAll inst.objective.terms) (objectiveVar : String) :
    Writes (Sugar.encode objectiveVar inst) (inst.IsIntegral ∧
      (∀ x ∈ inst.vars, Sugar.isSymbol x.name = true) ∧ inst.HasDirection ∧
        (inst.objective.terms = [] ∨ ∃ r, Sugar.sumRange inst inst.objective.terms = .ok r)) := by
  refine Writes.after (guards_checkIntegral "sugar") fun _ _ => ?_
  refine Writes.after guards_checkNames fun _ _ => ?_
  refine Writes.after (guards_objectiveDirection "sugar") fun direction hdirection => ?_
  -- a direction was found exactly if there is something to optimise
  have hgives : Gives (objectiveDirection "sugar" (OutputFormat.sugar objectiveVar).fallback? inst)
      "" direction "" := by
    show Gives (objectiveDirection "sugar" none inst) "" direction ""
    rw [hdirection]
    rfl
  obtain ⟨hnone, hsome, -⟩ := gives_objectiveDirection (by simp [OutputFormat.fallback?]) hgives
  have hiff : direction = none ↔ inst.objective.terms = [] := by
    refine ⟨hnone, fun hnil => ?_⟩
    cases direction with
    | none => rfl
    | some d => exact absurd hnil (hsome d rfl).1
  rw [← hiff]
  exact Writes.of_guards (guards_objectiveRange direction) (succeeds_body hcs ho objectiveVar)

/-- Where an objective of integers has a direction, its range is found exactly if it fits. -/
lemma hasDirection_and_range_iff (h : inst.objective.isIntegral = true) :
    (inst.HasDirection ∧
      (inst.objective.terms = [] ∨ ∃ r, Sugar.sumRange inst inst.objective.terms = .ok r)) ↔
    inst.objective.terms = [] ∨
      inst.objective.direction ≠ .unspecified ∧ Sugar.RangesFit inst inst.objective.terms := by
  rw [Sugar.exists_sumRange_iff (Term.allIntegers_iff.1 h), Instance.HasDirection, or_and_left]

/-- A problem that shows an instance whose constraints have few variables has a product for each
merged term. -/
lemma rows_of_shows (hfew : inst.HasFewVariables) {f : OutputFormat} {p : Problem}
    (hp : p.Shows f inst) :
    List.Forall₂ (fun c r => ∃ ms, c.merged = .ok ms ∧
      List.Forall₂ (Problem.Product.Shows inst) ms r.products) inst.constrs p.rows := by
  refine ((List.forall₂_and_left _ _).2 ⟨hfew, hp.rows⟩).imp ?_
  rintro c r ⟨⟨ms, hms, -⟩, hr⟩
  have hproducts := hr.products
  rw [mergedTerms, hms] at hproducts
  exact ⟨ms, hms, hproducts⟩

/-- **What the writers for solvers accept.**  An instance over declared variables is written for
aspartame exactly if merging overflows for no constraint, no constraint has more than three merged
terms, all numbers are integers, and the objective has no terms or a direction; for clingcon the
last condition is dropped.  For Sugar all numbers have to be integers and all names symbols, and the
objective has to be without terms, or to have a direction and ranges that fit.  If any of them
refuses an instance, it has emitted nothing, and what is written for aspartame and clingcon has a
product for each merged term of each constraint. -/
theorem solver_writers_accept_iff (hcs : ∀ c ∈ inst.constrs, inst.DeclaresAll c.terms)
    (ho : inst.DeclaresAll inst.objective.terms) :
    ((Asp.Facts.encode inst).output.1 = .ok () ↔
      inst.HasFewVariables ∧ inst.IsIntegral ∧ inst.HasDirection) ∧
    (∀ fallback, (Asp.Clingcon.encode fallback inst).output.1 = .ok () ↔
      inst.HasFewVariables ∧ inst.IsIntegral) ∧
    (∀ objectiveVar, (Sugar.encode objectiveVar inst).output.1 = .ok () ↔
      inst.IsIntegral ∧ (∀ x ∈ inst.vars, Sugar.isSymbol x.name = true) ∧
        (inst.objective.terms = [] ∨ inst.objective.direction ≠ .unspecified ∧
          Sugar.RangesFit inst inst.objective.terms)) ∧
    (∀ err, (Asp.Facts.encode inst).output.1 = .error err →
      (Asp.Facts.encode inst).output.2 = "") ∧
    (∀ fallback err, (Asp.Clingcon.encode fallback inst).output.1 = .error err →
      (Asp.Clingcon.encode fallback inst).output.2 = "") ∧
    (∀ objectiveVar err, (Sugar.encode objectiveVar inst).output.1 = .error err →
      (Sugar.encode objectiveVar inst).output.2 = "") ∧
    (∀ text, (Asp.Facts.encode inst).output = (.ok (), text) → ∃ p : Problem,
      p.Shows .facts inst ∧ Asp.Facts.dialect.text (Asp.Facts.listing p) = text ∧
      List.Forall₂ (fun c r => ∃ ms, c.merged = .ok ms ∧
        List.Forall₂ (Problem.Product.Shows inst) ms r.products) inst.constrs p.rows) ∧
    ∀ fallback text, fallback ≠ .unspecified →
      (Asp.Clingcon.encode fallback inst).output = (.ok (), text) → ∃ p : Problem,
      p.Shows (.clingcon fallback) inst ∧
      Asp.Clingcon.dialect.text (Asp.Clingcon.listing p) = text ∧
      List.Forall₂ (fun c r => ∃ ms, c.merged = .ok ms ∧
        List.Forall₂ (Problem.Product.Shows inst) ms r.products) inst.constrs p.rows := by
  -- a writer checks first and only then emits, so each is accepted under what it checks
  have hfacts := Asp.Facts.writes_encode hcs ho
  have hclingcon := Asp.Clingcon.writes_encode hcs ho
  have hsugar := Sugar.writes_encode hcs ho
  refine ⟨hfacts.output_eq_ok_iff, fun fallback => (hclingcon fallback).output_eq_ok_iff, ?_,
    fun err => hfacts.output_eq_empty, fun fallback err => (hclingcon fallback).output_eq_empty,
    fun objectiveVar err => (hsugar objectiveVar).output_eq_empty, ?_, ?_⟩
  · intro objectiveVar
    rw [(hsugar objectiveVar).output_eq_ok_iff]
    exact and_congr_right fun hint => and_congr_right fun _ => hasDirection_and_range_iff hint.2
  · intro text h
    obtain ⟨p, hp, htext⟩ := Asp.Facts.exists_problem_of_output h
    obtain ⟨hfew, -⟩ := hfacts.output_eq_ok_iff.1 (congrArg Prod.fst h)
    exact ⟨p, hp, htext, rows_of_shows hfew hp⟩
  · intro fallback text hfallback h
    obtain ⟨p, hp, htext⟩ := Asp.Clingcon.exists_problem_of_output hfallback h
    obtain ⟨hfew, -⟩ := (hclingcon fallback).output_eq_ok_iff.1 (congrArg Prod.fst h)
    exact ⟨p, hp, htext, rows_of_shows hfew hp⟩

/-- One constraint of four terms over three variables, and an objective with a direction. -/
def Instance.mergeable : Instance :=
  { Instance.fractional with
    constrs := [⟨List.zipWith (fun a x => ⟨a, x.var⟩) [1, 1, .ofWord 2, .ofWord (-3)]
      (Instance.fractional.vars.take 3 ++ Instance.fractional.vars.take 1), .ge, 1⟩]
    objective := ⟨.maximize, List.zipWith (fun a x => ⟨a, x.var⟩) [.ofWord 2, .ofWord (-1)]
      (Instance.fractional.vars.drop 3 ++ Instance.fractional.vars.take 1)⟩ }

/-- All three writers accept four terms over three variables.  With a fraction and no direction an
instance is refused, and nothing is emitted. -/
theorem solver_writers_accept_mergeable :
    (Asp.Facts.encode Instance.mergeable).output.1 = .ok () ∧
      (Asp.Clingcon.encode .minimize Instance.mergeable).output.1 = .ok () ∧
      (Sugar.encode "_obj" Instance.mergeable).output.1 = .ok () ∧
      (Asp.Facts.encode Instance.fractional).output.1 ≠ .ok () ∧
      (Asp.Facts.encode Instance.fractional).output.2 = "" := by
  have hfew : Instance.mergeable.HasFewVariables := by
    have hmerged : ∀ c ∈ Instance.mergeable.constrs,
        c.merged = .ok (mergedTerms c) ∧ (mergedTerms c).length ≤ 3 := by decide +kernel
    exact fun c hc => ⟨_, hmerged c hc⟩
  have hint : Instance.mergeable.IsIntegral := ⟨by decide, by decide⟩
  have hfit : Sugar.RangesFit Instance.mergeable Instance.mergeable.objective.terms :=
    (Sugar.exists_sumRange_iff (Term.allIntegers_iff.1 hint.2)).1
      ⟨(.ofWord (-5), .ofWord 23), by decide +kernel⟩
  have hcs : ∀ c ∈ Instance.mergeable.constrs, Instance.mergeable.DeclaresAll c.terms := by decide
  have ho : Instance.mergeable.DeclaresAll Instance.mergeable.objective.terms := by decide
  obtain ⟨hfacts, hclingcon, hsugar, -⟩ := solver_writers_accept_iff hcs ho
  obtain ⟨hrefused, -, -, hempty, -⟩ := solver_writers_accept_iff
    Instance.wellFormed_fractional.constrs_declared
    Instance.wellFormed_fractional.objective_declared
  have hnot : (Asp.Facts.encode Instance.fractional).output.1 ≠ .ok () := by
    rw [ne_eq, hrefused]
    rintro ⟨-, ⟨-, hobjective⟩, -⟩
    exact absurd hobjective (by decide)
  refine ⟨hfacts.2 ⟨hfew, hint, .inr (by decide)⟩, (hclingcon _).2 ⟨hfew, hint⟩,
    (hsugar _).2 ⟨hint, by decide +kernel, .inr ⟨by decide, hfit⟩⟩, hnot, ?_⟩
  cases herr : (Asp.Facts.encode Instance.fractional).output.1 with
  | ok => exact absurd herr hnot
  | error err => exact hempty err herr

end Writers

end LinearInterchange
