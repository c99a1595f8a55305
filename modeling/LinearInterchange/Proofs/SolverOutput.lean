import LinearInterchange.Format.Asp.Clingcon
import LinearInterchange.Format.Asp.Facts
import LinearInterchange.Format.Sugar
import LinearInterchange.Proofs.Emission
import LinearInterchange.Proofs.Normalization
import LinearInterchange.Proofs.NumberText
import LinearInterchange.Proofs.SolverForm

/-!
# Normalized and split instances can be written for solvers

The writers for clingcon, for aspartame and for Sugar refuse fractions, and the first two also
constraints with more than three variables.  An instance that was normalized and then split passes
these checks, so what is left to go wrong is the direction of the objective, a name that Sugar has
no symbol for, and the range of the objective.
-/

namespace LinearInterchange

/-! ## Checks -/

/-- All coefficients and right-hand sides of constraints and all coefficients of the objective are
integers. -/
def Instance.IsIntegral (inst : Instance) : Prop :=
  (∀ c ∈ inst.constrs, c.isIntegral = true) ∧ inst.objective.isIntegral = true

namespace Emit

variable {inst : Instance}

lemma forall_numbered {P : LinConstraint → Prop} :
    (∀ p ∈ numbered inst, P p.1) ↔ ∀ c ∈ inst.constrs, P c := by
  rw [numbered, ← List.forall_mem_map (f := Prod.fst), List.zipIdx_map_fst]

/-- The check of the number of variables. -/
lemma guards_checkArity (format : String) (greatest : ℕ) :
    Guards (checkArity format greatest inst)
      (∀ c ∈ inst.constrs, ∃ ms, c.merged = .ok ms ∧ ms.length ≤ greatest) := by
  simp only [← LinConstraint.arity_le_iff]
  refine (Guards.forM (R := fun p : LinConstraint × ℕ => ∃ k, p.1.arity = .ok k ∧ k ≤ greatest)
    ?_).congr (forall_numbered (P := fun c => ∃ k, c.arity = .ok k ∧ k ≤ greatest))
  rintro ⟨c, number⟩ -
  dsimp only
  cases c.arity with
  | error e => exact (Guards.throw _).congr ⟨False.elim, fun ⟨_, h, _⟩ => by cases h⟩
  | ok k =>
    dsimp only
    by_cases hle : k ≤ greatest
    · rw [if_pos hle]
      exact (Guards.pure ()).congr ⟨fun _ => ⟨k, rfl, hle⟩, fun _ => True.intro⟩
    · rw [if_neg hle]
      refine (Guards.throw _).congr ⟨False.elim, ?_⟩
      rintro ⟨k', hk, hle'⟩
      exact hle (Except.ok.inj hk ▸ hle')

/-- A condition that can be decided is checked. -/
lemma guards_ite (b : Bool) (err : WriteError) :
    Guards (if b then pure () else throw err : Emit Unit) (b = true) := by
  cases b with
  | true => exact (Guards.pure ()).congr ⟨fun _ => rfl, fun _ => True.intro⟩
  | false => exact (Guards.throw err).congr ⟨False.elim, fun h => by cases h⟩

/-- The check for fractions. -/
lemma guards_checkIntegral (format : String) :
    Guards (checkIntegral format inst) inst.IsIntegral := by
  refine Guards.bind ?_ fun _ _ => guards_ite _ _
  exact (Guards.forM (R := fun p : LinConstraint × ℕ => p.1.isIntegral = true)
    fun _ _ => guards_ite _ _).congr (forall_numbered (P := fun c => c.isIntegral = true))

/-- The check of the number of variables passes if it passes for each constraint. -/
lemma checkArity_eq_pure (format : String) {greatest : ℕ}
    (h : ∀ c ∈ inst.constrs, ∃ k, c.arity = .ok k ∧ k ≤ greatest) :
    checkArity format greatest inst = pure () :=
  (guards_checkArity format greatest).eq_pure fun c hc => LinConstraint.arity_le_iff.1 (h c hc)

lemma checkIntegral_eq_pure (format : String) (hcs : ∀ c ∈ inst.constrs, c.isIntegral = true)
    (ho : inst.objective.isIntegral = true) : checkIntegral format inst = pure () :=
  (guards_checkIntegral format).eq_pure ⟨hcs, ho⟩

/-- With a default there is always a direction to write. -/
lemma returns_objectiveDirection (format : String) (d : Direction) :
    Returns (objectiveDirection format (some d) inst) := by
  unfold objectiveDirection
  split
  · exact ⟨_, rfl⟩
  · split <;> first | exact ⟨_, rfl⟩ | contradiction

/-- Without a default there is a direction to write unless the objective has terms and no
direction. -/
lemma objectiveDirection_none (inst : Instance) (format : String) :
    (inst.objective.terms ≠ [] ∧ inst.objective.direction = .unspecified ∧
      objectiveDirection format none inst = throw (.noDirection format)) ∨
    (¬(inst.objective.terms ≠ [] ∧ inst.objective.direction = .unspecified) ∧
      Returns (objectiveDirection format none inst)) := by
  unfold objectiveDirection
  split
  case isTrue hempty =>
    exact .inr ⟨fun h => h.1 (List.isEmpty_iff.1 hempty), _, rfl⟩
  case isFalse hterms =>
    have hne : inst.objective.terms ≠ [] := fun h => hterms (List.isEmpty_iff.2 h)
    cases hd : inst.objective.direction with
    | unspecified => exact .inl ⟨hne, rfl, rfl⟩
    | minimize => exact .inr ⟨by simp, _, rfl⟩
    | maximize => exact .inr ⟨by simp, _, rfl⟩

lemma returns_nameOf {v : Var} (h : inst.declares v = true) : Returns (nameOf inst v) := by
  obtain ⟨x, hx⟩ := Instance.declares_iff_find?.1 h
  exact ⟨x.name, by rw [nameOf, Instance.nameOf?, hx]; rfl⟩

/-- Terms are written over the variables of the constraint. -/
lemma declaresAll_mergedTerms {c : LinConstraint} (h : inst.DeclaresAll c.terms) :
    inst.DeclaresAll (mergedTerms c) := by
  unfold mergedTerms
  cases hm : c.merged with
  | error => exact h
  | ok ms =>
    intro m hmem
    obtain ⟨t, ht, htm⟩ := List.mem_map.1 (Term.mem_of_mem_merge hm hmem)
    rw [← htm]
    exact h t ht

end Emit

open Emit

variable {inst : Instance}

/-! ## Clingcon and aspartame -/

/-- A sum over declared variables is written for clingcon. -/
lemma Asp.Clingcon.returns_elements {ts : List Term} (h : inst.DeclaresAll ts) :
    Returns (Asp.Clingcon.elements inst ts) := by
  obtain ⟨products, hproducts⟩ := returns_mapM (f := fun t : Term => do
      let name ← nameOf inst t.var
      return integer t.coeff ++ "*" ++ Asp.quoted name) (l := ts) fun t ht => by
    obtain ⟨name, hname⟩ := returns_nameOf (h t ht)
    exact ⟨_, by rw [hname, pure_bind]⟩
  exact ⟨_, by rw [Asp.Clingcon.elements, hproducts, pure_bind]⟩

/-- What is emitted for clingcon after the checks. -/
def Asp.Clingcon.body (inst : Instance) (direction : Option Direction) : Emit Unit := do
  inst.name.forM fun name => line ("% " ++ name)
  inst.vars.forM fun x => line (Asp.Clingcon.domStatement x)
  inst.constrs.forM (Asp.Clingcon.emitConstr inst)
  direction.forM (Asp.Clingcon.emitObjective inst)

/-- An instance over declared variables that passes the checks is written for clingcon. -/
lemma Asp.Clingcon.succeeds_body (hcs : ∀ c ∈ inst.constrs, inst.DeclaresAll c.terms)
    (ho : inst.DeclaresAll inst.objective.terms) (direction : Option Direction) :
    Succeeds (Asp.Clingcon.body inst direction) := by
  refine (succeeds_option_forM _ fun _ => succeeds_line _).bind ?_
  refine (succeeds_forM fun x _ => succeeds_line _).bind ?_
  refine (succeeds_forM fun c hc => ?_).bind (succeeds_option_forM _ fun d => ?_)
  · exact (returns_elements (declaresAll_mergedTerms (hcs c hc))).bind fun _ => succeeds_line _
  · exact (returns_elements ho).bind fun _ => succeeds_line _

/-- An instance with few variables to a constraint and integers only is written for clingcon. -/
lemma Asp.Clingcon.succeeds_encode (hwf : inst.WellFormed) (d : Direction)
    (hfit : ∀ c ∈ inst.constrs, c.FitsSolver) (ho : inst.objective.isIntegral = true) :
    Succeeds (Asp.Clingcon.encode d inst) := by
  unfold Asp.Clingcon.encode
  have harity : checkArity "casp" 3 inst = pure () :=
    checkArity_eq_pure "casp" fun c hc => (hfit c hc).arity_le
  rw [harity, pure_bind,
    checkIntegral_eq_pure "casp" (fun c hc => (hfit c hc).integral) ho, pure_bind]
  refine (returns_objectiveDirection "casp" d).bind fun direction => ?_
  exact succeeds_body hwf.constrs_declared hwf.objective_declared direction

/-- The facts of terms over declared variables are written. -/
lemma Asp.Facts.succeeds_terms {ts : List Term} (h : inst.DeclaresAll ts)
    (fact : Term → String → String) :
    Succeeds (ts.forM fun t => do
      let name ← nameOf inst t.var
      line (fact t name)) :=
  succeeds_forM fun t ht => (returns_nameOf (h t ht)).bind fun _ => succeeds_line _

/-- The facts that are emitted after the checks. -/
def Asp.Facts.body (inst : Instance) (direction : Option Direction) : Emit Unit := do
  inst.name.forM fun name => line ("% " ++ name)
  inst.vars.forM fun x => line (Asp.Facts.varFact x)
  (numbered inst).forM fun (c, number) => Asp.Facts.emitConstr inst c number
  direction.forM (Asp.Facts.emitObjective inst)

/-- An instance over declared variables that passes the checks is written as facts. -/
lemma Asp.Facts.succeeds_body (hcs : ∀ c ∈ inst.constrs, inst.DeclaresAll c.terms)
    (ho : inst.DeclaresAll inst.objective.terms) (direction : Option Direction) :
    Succeeds (Asp.Facts.body inst direction) := by
  refine (succeeds_option_forM _ fun _ => succeeds_line _).bind ?_
  refine (succeeds_forM fun x _ => succeeds_line _).bind ?_
  refine (succeeds_forM ?_).bind (succeeds_option_forM _ fun d => ?_)
  · rintro ⟨c, number⟩ hc
    have hdecl := hcs c (List.fst_mem_of_mem_zipIdx hc)
    exact (succeeds_line _).bind (succeeds_terms (declaresAll_mergedTerms hdecl) _)
  · exact (succeeds_line _).bind (succeeds_terms ho _)

/-- An instance with few variables to a constraint and integers only is written as aspartame facts
unless its objective has terms and no direction. -/
lemma Asp.Facts.output_encode (hwf : inst.WellFormed)
    (hfit : ∀ c ∈ inst.constrs, c.FitsSolver) (ho : inst.objective.isIntegral = true) :
    (Asp.Facts.encode inst).output.1 =
      if inst.objective.terms ≠ [] ∧ inst.objective.direction = .unspecified then
        .error (.noDirection "aspartame")
      else .ok () := by
  unfold Asp.Facts.encode
  have harity : checkArity "aspartame" 3 inst = pure () :=
    checkArity_eq_pure "aspartame" fun c hc => (hfit c hc).arity_le
  rw [harity, pure_bind,
    checkIntegral_eq_pure "aspartame" (fun c hc => (hfit c hc).integral) ho, pure_bind]
  rcases objectiveDirection_none inst "aspartame" with ⟨hne, hd, hthrow⟩ | ⟨hnot, hret⟩
  · rw [hthrow, throw_bind, if_pos ⟨hne, hd⟩, output_throw]
  · rw [if_neg hnot]
    refine Succeeds.output (hret.bind fun direction => ?_)
    exact succeeds_body hwf.constrs_declared hwf.objective_declared direction

/-! ## Sugar -/

namespace Sugar

/-- Digits are no white space and no characters that end a symbol. -/
lemma not_ends_of_isDigit {c : Char} (h : c.isDigit = true) :
    (Text.isBlank c || "();\"".toList.contains c) = false := by
  rw [Text.isBlank_of_isDigit h, Bool.false_or, Bool.eq_false_iff]
  intro hmem
  have hc : c = '(' ∨ c = ')' ∨ c = ';' ∨ c = '"' := by simpa using hmem
  rcases hc with rfl | rfl | rfl | rfl <;> cases h

/-- The names of generated variables are symbols. -/
lemma isSymbol_of_isGenerated {x : Variable} (h : x.IsGenerated) : isSymbol x.name = true := by
  obtain ⟨-, k, n, hname⟩ := h
  have hchars : ∀ c ∈ x.name.toList,
      (Text.isBlank c || "();\"".toList.contains c) = false := by
    intro c hc
    rw [hname, String.toList_append, List.mem_append, List.mem_append,
      Text.toList_toString_nat] at hc
    rcases hc with hc | hc | hc
    · rw [List.eq_of_mem_replicate hc]
      decide
    · rw [List.mem_singleton.1 hc]
      decide
    · exact not_ends_of_isDigit (Text.isDigit_of_mem hc)
  -- the first character is neither a sign nor a digit, so the name is not the text of a word
  have hword : (Text.readWord x.name.toList).toOption = none := by
    rw [hname]
    cases k with
    | zero =>
      rw [List.replicate_zero, List.nil_append, String.toList_append]
      rfl
    | succ k => rfl
  have hne : x.name.isEmpty = false := by
    rw [Bool.eq_false_iff]
    intro hempty
    rw [String.isEmpty_iff.1 hempty] at hname
    simp at hname
  unfold isSymbol
  rw [hne, hword, List.any_eq_false.2 fun c hc => by rw [hchars c hc]; exact Bool.false_ne_true]
  rfl

/-- A sum over declared variables is written. -/
lemma returns_sum {ts : List Term} (h : inst.DeclaresAll ts) : Returns (sum inst ts) := by
  obtain ⟨products, hproducts⟩ := returns_mapM (f := fun t : Term => do
      let name ← nameOf inst t.var
      return "(* " ++ integer t.coeff ++ " " ++ name ++ ")") (l := ts) fun t ht => by
    obtain ⟨name, hname⟩ := returns_nameOf (h t ht)
    exact ⟨_, by rw [hname, pure_bind]⟩
  unfold sum
  rw [hproducts, pure_bind]
  split <;> exact ⟨_, rfl⟩

/-- The range of the objective is found unless it overflows. -/
lemma objectiveRange_eq (inst : Instance) (direction : Option Direction) :
    ((∃ e, sumRange inst inst.objective.terms = .error e) ∧
      objectiveRange inst direction = throw (.limit "sugar" .objectiveRange)) ∨
    Returns (objectiveRange inst direction) := by
  cases direction with
  | none => exact .inr ⟨none, rfl⟩
  | some d =>
    unfold objectiveRange
    cases sumRange inst inst.objective.terms with
    | error e => exact .inl ⟨⟨e, rfl⟩, rfl⟩
    | ok range => exact .inr ⟨some (d, range), rfl⟩

/-- What is emitted for Sugar after the checks. -/
def body (objectiveVar : String) (inst : Instance)
    (objective : Option (Direction × Coeff × Coeff)) : Emit Unit := do
  inst.name.forM fun name => line ("; " ++ name)
  inst.vars.forM fun x =>
    line (declaration x.name (toString x.domain.least) (toString x.domain.greatest))
  inst.constrs.forM (emitConstr inst)
  objective.forM fun (d, range) => emitObjective objectiveVar inst d range

/-- An instance over declared variables that passes the checks is written for Sugar. -/
lemma succeeds_body (hcs : ∀ c ∈ inst.constrs, inst.DeclaresAll c.terms)
    (ho : inst.DeclaresAll inst.objective.terms) (objectiveVar : String)
    (objective : Option (Direction × Coeff × Coeff)) :
    Succeeds (body objectiveVar inst objective) := by
  refine (succeeds_option_forM _ fun _ => succeeds_line _).bind ?_
  refine (succeeds_forM fun x _ => succeeds_line _).bind ?_
  refine (succeeds_forM fun c hc => ?_).bind (succeeds_option_forM _ fun _ => ?_)
  · exact (returns_sum (declaresAll_mergedTerms (hcs c hc))).bind fun _ => succeeds_line _
  · refine (succeeds_line _).bind ((returns_sum ho).bind fun _ => ?_)
    exact (succeeds_line _).bind (succeeds_line _)

/-- The outcome of writing an instance of integers in Sugar's syntax: it is refused for a name that
is no symbol, for an objective without a direction, or for an objective whose range overflows, and
otherwise written. -/
lemma output_encode (hwf : inst.WellFormed) (objectiveVar : String)
    (hcs : ∀ c ∈ inst.constrs, c.isIntegral = true) (ho : inst.objective.isIntegral = true) :
    (encode objectiveVar inst).output.1 = .ok () ∨
    (∃ x ∈ inst.vars, isSymbol x.name = false ∧
      (encode objectiveVar inst).output.1 = .error (.limit "sugar" (.notASymbol x.name))) ∨
    (inst.objective.terms ≠ [] ∧ inst.objective.direction = .unspecified ∧
      (encode objectiveVar inst).output.1 = .error (.noDirection "sugar")) ∨
    ((∃ e, sumRange inst inst.objective.terms = .error e) ∧
      (encode objectiveVar inst).output.1 = .error (.limit "sugar" .objectiveRange)) := by
  unfold encode
  rw [checkIntegral_eq_pure "sugar" hcs ho, pure_bind]
  -- the checks are made in this order, so each refusal presupposes that those before it passed
  cases hnames : inst.names.find? fun name => !isSymbol name with
  | some name =>
    obtain ⟨x, hx, rfl⟩ := List.mem_map.1 (List.mem_of_find?_eq_some hnames)
    have hsymbol : isSymbol x.name = false := by simpa using List.find?_some hnames
    refine .inr (.inl ⟨x, hx, hsymbol, ?_⟩)
    rw [checkNames, hnames, throw_bind, output_throw]
  | none =>
    have hcheck : checkNames inst = pure () := by rw [checkNames, hnames]
    rw [hcheck, pure_bind]
    rcases objectiveDirection_none inst "sugar" with ⟨hne, hd, hthrow⟩ | ⟨-, direction, hd⟩
    · exact .inr (.inr (.inl ⟨hne, hd, by rw [hthrow, throw_bind, output_throw]⟩))
    rw [hd, pure_bind]
    rcases objectiveRange_eq inst direction with ⟨hrange, hthrow⟩ | hret
    · exact .inr (.inr (.inr ⟨hrange, by rw [hthrow, throw_bind, output_throw]⟩))
    refine .inl (Succeeds.output (hret.bind fun objective => ?_))
    exact succeeds_body hwf.constrs_declared hwf.objective_declared objectiveVar objective

end Sugar

/-! ## The passes and the writers -/

/-- **Normalizing and splitting reaches what the writers for solvers need.**  All constraints have
at most three variables, and counting them does not overflow; all coefficients and right-hand sides
are integers.  So the instance is written for clingcon whatever the default direction is, as
aspartame facts unless its objective has terms and no direction, and in Sugar's syntax up to that
same reason, a name of an original variable that is no symbol, and an objective whose range
overflows. -/
theorem Instance.solvers_accept_splitConstrs_normalize (hwf : inst.WellFormed) {n : Normalizer}
    {inst₁ inst₂ : Instance} {count : ℕ} {stats : SplitStats}
    (hnormalize : n.normalize inst = (inst₁, .ok count))
    (hsplit : inst₁.splitConstrs = (inst₂, .ok stats)) :
    (∀ c ∈ inst₂.constrs, (∃ k, c.arity = .ok k ∧ k ≤ 3) ∧ c.isIntegral = true) ∧
    inst₂.objective.isIntegral = true ∧
    (∀ fallback, (Asp.Clingcon.encode fallback inst₂).output.1 = .ok ()) ∧
    ((Asp.Facts.encode inst₂).output.1 =
      if inst.objective.terms ≠ [] ∧ inst.objective.direction = .unspecified then
        .error (.noDirection "aspartame")
      else .ok ()) ∧
    ∀ objectiveVar,
      (Sugar.encode objectiveVar inst₂).output.1 = .ok () ∨
      (∃ x ∈ inst.vars, Sugar.isSymbol x.name = false ∧
        (Sugar.encode objectiveVar inst₂).output.1 =
          .error (.limit "sugar" (.notASymbol x.name))) ∨
      (inst.objective.terms ≠ [] ∧ inst.objective.direction = .unspecified ∧
        (Sugar.encode objectiveVar inst₂).output.1 = .error (.noDirection "sugar")) ∨
      ((∃ e, Sugar.sumRange inst₂ inst₂.objective.terms = .error e) ∧
        (Sugar.encode objectiveVar inst₂).output.1 =
          .error (.limit "sugar" .objectiveRange)) := by
  obtain ⟨hcs₁, ho₁⟩ := Normalizer.isIntegral_normalize hnormalize
  have hwf₁ : inst₁.WellFormed := by
    have h := n.wellFormed_normalize hwf
    rwa [hnormalize] at h
  have hwf₂ : inst₂.WellFormed := by
    have h := hwf₁.splitConstrs
    rwa [hsplit] at h
  have hfit := Instance.fitsSolver_splitConstrs hwf₁ hcs₁ hsplit
  obtain ⟨aux, new, hgrow, -⟩ := Instance.conservative_addAllSplit hwf₁.takeConstrs.toRegistered
    hwf₁.constrs_declared hsplit
  have ho : inst₂.objective = inst₁.objective := hgrow.objective_eq
  obtain ⟨cs, o, heq, -, hvars, hdirection⟩ := n.normalize_eq inst
  rw [hnormalize] at heq
  replace heq : inst₁ = { inst with constrs := cs, objective := o } := heq
  have hobjective : inst₂.objective = o := by rw [ho, heq]
  -- the objective keeps its variables, so it has terms exactly when it had some before
  have hterms : inst₂.objective.terms ≠ [] ↔ inst.objective.terms ≠ [] := by
    have hlen := congrArg List.length hvars
    rw [List.length_map, List.length_map] at hlen
    rw [hobjective, ← List.length_pos_iff, ← List.length_pos_iff, hlen]
  have hdir : inst₂.objective.direction = inst.objective.direction := by
    rw [hobjective, hdirection]
  have hvars₁ : inst₁.vars = inst.vars := vars_congr (by rw [heq]) (by rw [heq])
  have hintegral : inst₂.objective.isIntegral = true := ho ▸ ho₁
  have hcs : ∀ c ∈ inst₂.constrs, c.isIntegral = true := fun c hc => (hfit c hc).integral
  refine ⟨fun c hc => ⟨(hfit c hc).arity_le, hcs c hc⟩, hintegral,
    fun d => (Asp.Clingcon.succeeds_encode hwf₂ d hfit hintegral).output, ?_, ?_⟩
  · rw [Asp.Facts.output_encode hwf₂ hfit hintegral]
    simp only [hterms, hdir]
  · intro objectiveVar
    rcases Sugar.output_encode hwf₂ objectiveVar hcs hintegral with
      hok | ⟨x, hx, hsymbol, hname⟩ | ⟨hne, hd, hnone⟩ | hrange
    · exact .inl hok
    · refine .inr (.inl ⟨x, ?_, hsymbol, hname⟩)
      have hx' : x ∈ inst₁.vars ++ aux := hgrow.vars_eq ▸ hx
      rcases List.mem_append.1 hx' with hx' | hx'
      · exact hvars₁ ▸ hx'
      · rw [Sugar.isSymbol_of_isGenerated (hgrow.generated x hx')] at hsymbol
        cases hsymbol
    · exact .inr (.inr (.inl ⟨hterms.1 hne, hdir ▸ hd, hnone⟩))
    · exact .inr (.inr (.inr hrange))

/-- An instance with fractions and without a direction: clingcon gets it in its default direction,
aspartame does not get it at all. -/
theorem Instance.solvers_accept_fractional : ∃ inst₁ inst₂ : Instance,
    Normalizer.normalize {} fractional = (inst₁, .ok 1) ∧
      inst₁.splitConstrs = (inst₂, .ok ⟨2, 2⟩) ∧
      (∀ c ∈ inst₂.constrs, (∃ k, c.arity = .ok k ∧ k ≤ 3) ∧ c.isIntegral = true) ∧
      (Asp.Clingcon.encode .minimize inst₂).output.1 = .ok () ∧
      (Asp.Facts.encode inst₂).output.1 = .error (.noDirection "aspartame") := by
  have hnormalize : Normalizer.normalize {} fractional =
      ((Normalizer.normalize {} fractional).1, .ok 1) := by decide +kernel
  have hsplit : (Normalizer.normalize {} fractional).1.splitConstrs =
      ((Normalizer.normalize {} fractional).1.splitConstrs.1, .ok ⟨2, 2⟩) := by decide +kernel
  obtain ⟨hfit, -, hclingcon, hfacts, -⟩ :=
    solvers_accept_splitConstrs_normalize wellFormed_fractional hnormalize hsplit
  rw [if_pos (by decide)] at hfacts
  exact ⟨_, _, hnormalize, hsplit, hfit, hclingcon .minimize, hfacts⟩

end LinearInterchange
