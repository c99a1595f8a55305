import LinearInterchange.Proofs.SolverForm

/-!
# What a constraint is split into

A split puts a block of constraints in the place of each constraint.  A constraint with at most
three variables is a block of its own.  Folding another one gives a chain (`Chain`): a definition
for each auxiliary variable and then the constraint over the terms that are left, so two constraints
less than there were variables.

A run of a split is a list of blocks, one for each constraint and in the same order
(`replaces_addAllSplit`).  All constraints of the blocks have at most three variables and can be
merged, so that splitting them again keeps each of them.
-/

namespace LinearInterchange

/-- The constraint has more variables than one that is kept by a split. -/
def LinConstraint.isLong (c : LinConstraint) : Bool :=
  c.merged.toOption.any fun ms => maxTerms < ms.length

/-- The number of merged terms tells whether a constraint is kept. -/
lemma LinConstraint.isLong_eq {c : LinConstraint} {ms : List Term} (h : c.merged = .ok ms) :
    c.isLong = decide (maxTerms < ms.length) := by
  rw [isLong, h]
  rfl

namespace Instance

variable {inst inst' : Instance} {number : ℕ}

/-! ## Chains -/

/-- Folding the terms of a constraint over some variables introduces auxiliary variables and gives a
chain of constraints. -/
inductive Chain (vars : List Variable) (rel : Relation) (rhs : Coeff) :
    List Term → List Variable → List LinConstraint → Prop
  /-- Few terms are left. -/
  | stop {ts : List Term} (few : ts.length ≤ maxTerms) : Chain vars rel rhs ts [] [⟨ts, rel, rhs⟩]
  /-- The first two of many terms give way to a new variable with its definition. -/
  | fold {first second : Term} {rest : List Term} {x y a : Variable} {p : PairSum}
      {aux : List Variable} {block : List LinConstraint} (many : 2 ≤ rest.length)
      (first_mem : x ∈ vars) (first_var : x.var = first.var)
      (second_mem : y ∈ vars) (second_var : y.var = second.var)
      (sum : pairSum first second x.domain y.domain = .ok p)
      (aux_mem : a ∈ vars) (aux_domain : a.domain = p.domain)
      (fresh : a.var ∉ (first :: second :: rest).map (·.var))
      (tail : Chain vars rel rhs (⟨unitFraction p.denominator, a.var⟩ :: rest) aux block) :
      Chain vars rel rhs (first :: second :: rest) (a :: aux) (p.definition a.var :: block)

namespace Chain

variable {vars vars' aux : List Variable} {rel : Relation} {rhs : Coeff} {ts : List Term}
  {block : List LinConstraint}

/-- A chain over some variables is one over more variables. -/
lemma mono (h : Chain vars rel rhs ts aux block) (hvars : vars ⊆ vars') :
    Chain vars' rel rhs ts aux block := by
  induction h with
  | stop few => exact .stop few
  | fold many hx hxv hy hyv hp ha had hfresh _ ih =>
    exact .fold many (hvars hx) hxv (hvars hy) hyv hp (hvars ha) had hfresh ih

/-- There is an auxiliary variable for each term beyond the third. -/
lemma length_aux (h : Chain vars rel rhs ts aux block) : aux.length = ts.length - maxTerms := by
  induction h with
  | stop few => exact (Nat.sub_eq_zero_of_le few).symm
  | fold many _ _ _ _ _ _ _ _ _ ih =>
    simp only [List.length_cons, maxTerms] at ih ⊢
    omega

/-- There is a definition for each auxiliary variable, and one constraint beside them. -/
lemma length_block (h : Chain vars rel rhs ts aux block) : block.length = aux.length + 1 := by
  induction h with
  | stop => rfl
  | fold _ _ _ _ _ _ _ _ _ _ ih => rw [List.length_cons, List.length_cons, ih]

/-- If the terms are over different variables, then the constraints of the chain are, too.  They
have few terms. -/
lemma nodup_terms (h : Chain vars rel rhs ts aux block) (hts : (ts.map (·.var)).Nodup) :
    ∀ d ∈ block, (d.terms.map (·.var)).Nodup ∧ d.terms.length ≤ maxTerms := by
  induction h with
  | stop few =>
    intro d hd
    rw [List.mem_singleton.1 hd]
    exact ⟨hts, few⟩
  | fold many hx hxv hy hyv hp ha had hfresh tail ih =>
    have hrep := represents_of_pairSum hp
    simp only [List.map_cons, List.nodup_cons, List.mem_cons, not_or] at hts hfresh
    obtain ⟨⟨hne, -⟩, -, hrest⟩ := hts
    obtain ⟨hfirst, hsecond, hnotin⟩ := hfresh
    intro d hd
    rcases List.mem_cons.1 hd with rfl | hd
    · refine ⟨?_, le_rfl⟩
      simp [PairSum.definition, hrep.first_var, hrep.second_var, hne, Ne.symm hfirst,
        Ne.symm hsecond]
    · exact ih (List.nodup_cons.2 ⟨hnotin, hrest⟩) d hd

end Chain

/-- Folding the terms of a constraint gives a chain. -/
lemma chain_foldTerms (hreg : inst.Registered) {ts us : List Term} {n : ℕ}
    (hts : inst.DeclaresAll ts) (rel : Relation) (rhs : Coeff)
    (h : foldTerms number ts inst = (inst', .ok (us, n))) :
    ∃ aux defs, inst.Grows inst' aux defs ∧ inst'.Registered ∧ n = aux.length ∧
      Chain inst'.vars rel rhs ts aux (defs ++ [⟨us, rel, rhs⟩]) := by
  fun_induction foldTerms number ts inst generalizing us n with
  | case1 => cases h
  | case2 first second third fourth rest inst inst₁ t hfold inst₂ outcome hrest ih =>
    simp only [Prod.mk.injEq] at h
    obtain ⟨rfl, hok⟩ := h
    obtain ⟨⟨us₁, m⟩, rfl, heq⟩ := map_eq_ok.1 hok
    cases heq
    obtain ⟨x, y, p, v, inst₀, hx, hy, hp, hv, hadd, rfl⟩ := foldPair_ok hfold
    obtain ⟨hxmem, hxvar⟩ := hreg.mem_vars_of_find? hx
    obtain ⟨hymem, hyvar⟩ := hreg.mem_vars_of_find? hy
    obtain ⟨a, rfl, hdom, hnew⟩ := hreg.grows_of_newAux hv
    have hgrow₁ := hnew.trans (grows_of_addConstr hadd)
    have ha : a ∈ inst₁.vars := by simp [hgrow₁.vars_eq]
    -- the auxiliary variable is new, so it is none of the variables of the terms
    have hfresh : a.var ∉ (first :: second :: third :: fourth :: rest).map (·.var) := by
      intro hmem
      obtain ⟨u, hu, hua⟩ := List.mem_map.1 hmem
      have hdecl := hts u hu
      rw [hua, hreg.not_declares_used (hreg.newAux_ok hv).1] at hdecl
      exact Bool.false_ne_true hdecl
    have hts₁ : inst₁.DeclaresAll
        (⟨unitFraction p.denominator, a.var⟩ :: third :: fourth :: rest) := by
      intro u hu
      rcases List.mem_cons.1 hu with rfl | hu
      · exact declares_of_mem ha
      · exact hreg.declares_mono hgrow₁.prefix_vars
          (hts u (List.mem_cons_of_mem _ (List.mem_cons_of_mem _ hu)))
    obtain ⟨aux, defs, hgrow₂, hreg₂, rfl, hchain⟩ := ih (hreg.foldPair hfold) hts₁ hrest
    have hgrow := hgrow₁.trans hgrow₂
    refine ⟨a :: aux, p.definition a.var :: defs, hgrow, hreg₂, rfl, ?_⟩
    exact .fold (by simp) (hgrow.prefix_vars.subset hxmem) hxvar (hgrow.prefix_vars.subset hymem)
      hyvar hp (hgrow₂.prefix_vars.subset ha) hdom hfresh hchain
  | case3 ts inst hshort =>
    cases h
    refine ⟨[], [], .refl _, hreg, rfl, .stop ?_⟩
    rcases ts with _ | ⟨first, _ | ⟨second, _ | ⟨third, _ | ⟨fourth, rest⟩⟩⟩⟩
    case cons.cons.cons.cons => exact absurd rfl (hshort first second third fourth rest)
    all_goals simp [maxTerms]

/-! ## Blocks -/

/-- Auxiliary variables and constraints in the place of a constraint. -/
structure Block where
  aux : List Variable
  constrs : List LinConstraint

/-- The block is what a split puts in the place of a constraint. -/
def Block.Replaces (vars : List Variable) (c : LinConstraint) (b : Block) : Prop :=
  ∃ ms, c.merged = .ok ms ∧ (ms.length ≤ maxTerms ∧ b = ⟨[], [c]⟩ ∨
    maxTerms < ms.length ∧ Chain vars c.rel c.rhs ms b.aux b.constrs)

namespace Block.Replaces

variable {vars vars' : List Variable} {c : LinConstraint} {b : Block}

/-- A block over some variables is one over more variables. -/
lemma mono (h : b.Replaces vars c) (hvars : vars ⊆ vars') : b.Replaces vars' c := by
  obtain ⟨ms, hms, hshort | ⟨hlong, hchain⟩⟩ := h
  · exact ⟨ms, hms, .inl hshort⟩
  · exact ⟨ms, hms, .inr ⟨hlong, hchain.mono hvars⟩⟩

/-- The auxiliary variables tell whether a constraint is kept. -/
lemma isLong_eq (h : b.Replaces vars c) : c.isLong = decide (b.aux.length ≠ 0) := by
  obtain ⟨ms, hms, ⟨hshort, rfl⟩ | ⟨hlong, hchain⟩⟩ := h
  · simp [LinConstraint.isLong_eq hms, hshort]
  · have hpos : b.aux.length ≠ 0 := by
      rw [hchain.length_aux]
      omega
    simp only [LinConstraint.isLong_eq hms, hlong, hpos, ne_eq, not_false_eq_true]

/-- A kept constraint is its own block, another one has a block with two constraints less than it
has variables. -/
lemma length_constrs (h : b.Replaces vars c) : ∃ ms, c.merged = .ok ms ∧
    (ms.length ≤ maxTerms → b.constrs = [c]) ∧
    (maxTerms < ms.length → b.constrs.length = ms.length - 2) := by
  obtain ⟨ms, hms, ⟨hshort, rfl⟩ | ⟨hlong, hchain⟩⟩ := h
  · exact ⟨ms, hms, fun _ => rfl, fun hlong => by omega⟩
  · refine ⟨ms, hms, fun hshort => by omega, fun _ => ?_⟩
    rw [hchain.length_block, hchain.length_aux]
    simp only [maxTerms] at hlong ⊢
    omega

/-- The constraints of a block can be merged and are short. -/
lemma short (h : b.Replaces vars c) :
    ∀ d ∈ b.constrs, ∃ ms, d.merged = .ok ms ∧ ms.length ≤ maxTerms := by
  obtain ⟨ms, hms, ⟨hshort, rfl⟩ | ⟨-, hchain⟩⟩ := h
  · intro d hd
    rw [List.mem_singleton.1 hd]
    exact ⟨ms, hms, hshort⟩
  · intro d hd
    obtain ⟨hnodup, hlen⟩ := hchain.nodup_terms (Term.nodup_merge hms) d hd
    exact ⟨_, Term.merge_of_nodup hnodup, (List.length_filter_le _ _).trans hlen⟩

end Block.Replaces

/-! ## Runs -/

/-- Splitting a constraint adds a block in its place. -/
lemma replaces_addSplit (hreg : inst.Registered) {c : LinConstraint} {n : ℕ}
    (hc : inst.DeclaresAll c.terms) (h : inst.addSplit number c = (inst', .ok n)) :
    ∃ b : Block, inst.Grows inst' b.aux b.constrs ∧ inst'.Registered ∧ n = b.aux.length ∧
      b.Replaces inst'.vars c := by
  obtain ⟨ms, hms, ⟨hshort, rfl, hadd⟩ | ⟨hlong, inst₁, ts, hfold, hadd⟩⟩ := addSplit_ok h
  · have hgrow := grows_of_addConstr hadd
    obtain ⟨-, rfl⟩ := addConstr_ok hadd
    exact ⟨⟨[], [c]⟩, hgrow, hreg.replace .., rfl, ms, hms, .inl ⟨hshort, rfl⟩⟩
  · have hdecl : inst.DeclaresAll ms := by
      intro m hm
      obtain ⟨t, ht, htm⟩ := List.mem_map.1 (Term.mem_of_mem_merge hms hm)
      rw [← htm]
      exact hc t ht
    obtain ⟨aux, defs, hgrow₁, hreg₁, rfl, hchain⟩ := chain_foldTerms hreg hdecl c.rel c.rhs hfold
    have hlast := grows_of_addConstr hadd
    have hgrow := hgrow₁.trans hlast
    rw [List.append_nil] at hgrow
    have hchain' := hchain.mono hlast.prefix_vars.subset
    obtain ⟨-, rfl⟩ := addConstr_ok hadd
    exact ⟨⟨aux, defs ++ [{ c with terms := ts }]⟩, hgrow, hreg₁.replace .., rfl, ms, hms,
      .inr ⟨hlong, hchain'⟩⟩

/-- Splitting constraints one after another adds a block in the place of each. -/
lemma replaces_addAllSplit (hreg : inst.Registered) {cs : List LinConstraint} {stats : SplitStats}
    (hcs : ∀ c ∈ cs, inst.DeclaresAll c.terms)
    (h : addAllSplit number cs inst = (inst', .ok stats)) :
    ∃ bs : List Block, inst.Grows inst' (bs.flatMap Block.aux) (bs.flatMap Block.constrs) ∧
      inst'.Registered ∧ List.Forall₂ (fun c b => b.Replaces inst'.vars c) cs bs ∧
      stats = ⟨cs.countP LinConstraint.isLong, (bs.flatMap Block.aux).length⟩ := by
  induction cs generalizing inst number stats with
  | nil =>
    cases h
    exact ⟨[], .refl _, hreg, .nil, rfl⟩
  | cons c cs ih =>
    obtain ⟨inst₁, n, stats₁, hsplit, hrest, rfl⟩ := addAllSplit_ok h
    obtain ⟨b, hgrow₁, hreg₁, rfl, hb⟩ := replaces_addSplit hreg (hcs c List.mem_cons_self) hsplit
    have hcs₁ : ∀ d ∈ cs, inst₁.DeclaresAll d.terms := fun d hd =>
      hreg.declaresAll_mono hgrow₁.prefix_vars (hcs d (List.mem_cons_of_mem _ hd))
    obtain ⟨bs, hgrow₂, hreg₂, hbs, rfl⟩ := ih hreg₁ hcs₁ hrest
    refine ⟨b :: bs, hgrow₁.trans hgrow₂, hreg₂,
      .cons (hb.mono hgrow₂.prefix_vars.subset) hbs, ?_⟩
    rw [List.countP_cons, hb.isLong_eq, List.flatMap_cons, List.length_append,
      Nat.add_comm b.aux.length]
    by_cases hn : b.aux.length = 0 <;> simp [hn]

/-- Splitting an instance puts a block in the place of each constraint. -/
lemma replaces_splitConstrs (hreg : inst.Registered)
    (hcs : ∀ c ∈ inst.constrs, inst.DeclaresAll c.terms) {stats : SplitStats}
    (h : inst.splitConstrs = (inst', .ok stats)) :
    ∃ bs : List Block, inst.takeConstrs.2.Grows inst' (bs.flatMap Block.aux)
        (bs.flatMap Block.constrs) ∧ inst'.Registered ∧
      List.Forall₂ (fun c b => b.Replaces inst'.vars c) inst.constrs bs ∧
      stats = ⟨inst.constrs.countP LinConstraint.isLong, (bs.flatMap Block.aux).length⟩ := by
  have hempty : inst.takeConstrs.2.Registered := hreg.replace ..
  exact replaces_addAllSplit hempty hcs h

/-- Short constraints over declared variables are added as they are. -/
lemma addAllSplit_of_short {cs : List LinConstraint} (hdecl : ∀ c ∈ cs, inst.DeclaresAll c.terms)
    (hshort : ∀ c ∈ cs, ∃ ms, c.merged = .ok ms ∧ ms.length ≤ maxTerms) :
    addAllSplit number cs inst = ({ inst with constrs := inst.constrs ++ cs }, .ok {}) := by
  induction cs generalizing inst number with
  | nil => rw [addAllSplit, List.append_nil]
  | cons c cs ih =>
    obtain ⟨ms, hms, hle⟩ := hshort c List.mem_cons_self
    have hadd := Edit.map_result_eq_ok.1 (addConstr_of_declared (hdecl c List.mem_cons_self))
    have hstep : inst.addSplit number c =
        ({ inst with constrs := inst.constrs ++ [c] }, .ok 0) := by
      simp only [addSplit, hms, if_pos hle, putBack, hadd]
      rfl
    have hrest : addAllSplit (number + 1) cs { inst with constrs := inst.constrs ++ [c] } =
        ({ inst with constrs := inst.constrs ++ [c] ++ cs }, .ok {}) :=
      ih (fun d hd => hdecl d (List.mem_cons_of_mem _ hd))
        fun d hd => hshort d (List.mem_cons_of_mem _ hd)
    simp only [addAllSplit, hstep, hrest, List.append_assoc]
    rfl

/-- An instance whose constraints are short is kept by a split. -/
lemma splitConstrs_of_short (hwf : inst.WellFormed)
    (hshort : ∀ c ∈ inst.constrs, ∃ ms, c.merged = .ok ms ∧ ms.length ≤ maxTerms) :
    inst.splitConstrs = (inst, .ok {}) := by
  have hdecl : ∀ c ∈ inst.constrs, inst.takeConstrs.2.DeclaresAll c.terms := hwf.constrs_declared
  exact addAllSplit_of_short hdecl hshort

/-! ## The shape of a split instance -/

/-- **A split keeps the order and settles.**  The constraints of the split instance are one block
after another, in the order of the constraints that they stand for: a constraint with at most three
merged terms as it is, and two constraints less than there are merged terms for another one.  All of
them have at most three variables.  The numbers that are reported are those of the longer
constraints and of the auxiliary variables, which come after all others.  Splitting once more
succeeds and changes nothing. -/
theorem splitConstrs_shape (hwf : inst.WellFormed) {stats : SplitStats}
    (h : inst.splitConstrs = (inst', .ok stats)) :
    (∃ blocks : List (List LinConstraint), inst'.constrs = blocks.flatten ∧
      List.Forall₂ (fun c block => ∃ ms, c.merged = .ok ms ∧
        (ms.length ≤ 3 → block = [c]) ∧ (3 < ms.length → block.length = ms.length - 2))
        inst.constrs blocks) ∧
    (∀ c ∈ inst'.constrs, ∃ k, c.arity = .ok k ∧ k ≤ 3) ∧
    stats.split = inst.constrs.countP LinConstraint.isLong ∧
    (∃ aux, inst'.vars = inst.vars ++ aux ∧ (∀ x ∈ aux, x.origin = .auxiliary) ∧
      stats.aux = aux.length) ∧
    inst'.splitConstrs = (inst', .ok ⟨0, 0⟩) := by
  obtain ⟨bs, hgrow, -, hbs, rfl⟩ := replaces_splitConstrs hwf.toRegistered hwf.constrs_declared h
  have hconstrs : inst'.constrs = bs.flatMap Block.constrs := hgrow.constrs_eq
  -- every constraint of a block is short, so a second split finds nothing to do
  have hshort : ∀ c ∈ inst'.constrs, ∃ ms, c.merged = .ok ms ∧ ms.length ≤ maxTerms := by
    intro d hd
    obtain ⟨b, hb, hdb⟩ := List.mem_flatMap.1 (hconstrs ▸ hd)
    have hall := (List.forall₂_and_left _ _).1
      (List.Forall₂.flip (hbs.imp fun c b hb => ⟨hb.short, hb⟩))
    exact hall.1 b hb d hdb
  have hwf' : inst'.WellFormed := by
    have hsplit := hwf.splitConstrs
    rwa [h] at hsplit
  refine ⟨⟨bs.map Block.constrs, hconstrs, ?_⟩, ?_, rfl, ?_, splitConstrs_of_short hwf' hshort⟩
  · exact List.forall₂_map_right_iff.2 (hbs.imp fun c b hb => hb.length_constrs)
  · intro c hc
    obtain ⟨ms, hms, hle⟩ := hshort c hc
    exact LinConstraint.arity_le_iff.2 ⟨ms, hms, hle⟩
  · exact ⟨_, hgrow.vars_eq, fun x hx => (hgrow.generated x hx).1, rfl⟩

/-- A constraint that names one of its three variables twice, and two constraints that are split. -/
def repeating : Instance :=
  { fractional with
    constrs := ⟨List.zipWith (fun a x => ⟨a, x.var⟩) [1, 1, .ofWord 2, .ofWord (-3)]
      (fractional.vars.take 3 ++ fractional.vars.take 1), .ge, 1⟩ :: fractional.constrs }

/-- The constraint with a repeated variable stays as it is in front of the blocks of the others. -/
theorem splitConstrs_shape_repeating : ∃ inst',
    repeating.WellFormed ∧ repeating.splitConstrs = (inst', .ok ⟨2, 2⟩) ∧
      inst'.constrs.head? = repeating.constrs.head? ∧
      repeating.constrs.countP LinConstraint.isLong = 2 ∧
      (∀ c ∈ inst'.constrs, ∃ k, c.arity = .ok k ∧ k ≤ 3) ∧
      inst'.splitConstrs = (inst', .ok ⟨0, 0⟩) := by
  have hwf : repeating.WellFormed :=
    wellFormed_fractional.replace (by decide) wellFormed_fractional.objective_declared
  have h : repeating.splitConstrs = (repeating.splitConstrs.1, .ok ⟨2, 2⟩) := by decide +kernel
  obtain ⟨-, harity, hsplit, -, hagain⟩ := splitConstrs_shape hwf h
  exact ⟨_, hwf, h, by decide +kernel, hsplit.symm, harity, hagain⟩

end Instance

end LinearInterchange
