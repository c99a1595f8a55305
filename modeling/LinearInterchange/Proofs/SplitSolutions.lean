import LinearInterchange.Proofs.Splitting

/-!
# Splitting preserves the solutions

The constraints of a split instance are a conservative extension of the constraints that were
split.  This is shown along the run of a split: for one replaced pair of terms, for all pairs of a
constraint, for a constraint, and for a list of constraints.  At each level the constraints that
are there already do not mention the auxiliary variables that are added later, so the extensions
compose.
-/

namespace LinearInterchange.Instance

variable {inst inst' : Instance} {number : ℕ}

/-- One step of a split extends the constraint that it works on conservatively. -/
lemma conservative_foldPair (hreg : inst.Registered) {first second t : Term} {rest : List Term}
    (hrest : inst.DeclaresAll rest) (rel : Relation) (rhs : Coeff)
    (h : inst.foldPair number first second = (inst', .ok t)) :
    ∃ aux defs, inst.Grows inst' aux defs ∧ (∀ d ∈ defs, inst'.DeclaresAll d.terms) ∧
      inst'.DeclaresAll (t :: rest) ∧
      Conservative inst.vars [⟨first :: second :: rest, rel, rhs⟩] aux
        (defs ++ [⟨t :: rest, rel, rhs⟩]) := by
  obtain ⟨x, y, p, v, inst₁, hx, hy, hp, hv, hadd, rfl⟩ := foldPair_ok h
  obtain ⟨hxmem, hxvar⟩ := hreg.mem_vars_of_find? hx
  obtain ⟨hymem, hyvar⟩ := hreg.mem_vars_of_find? hy
  obtain ⟨a, rfl, hdom, hgrow⟩ := hreg.grows_of_newAux hv
  have hgrow' : inst.Grows inst' [a] [p.definition a.var] :=
    hgrow.trans (grows_of_addConstr hadd)
  have hid := hreg.not_declares_used (hreg.newAux_ok hv).1
  -- the auxiliary variable has the next id, so no term can be over it yet
  have hnew : a.var ∉ inst.vars.map (·.var) := by
    rw [← hreg.declares_iff, hid]
    exact Bool.false_ne_true
  have hrest_ne : ∀ u ∈ rest, u.var ≠ a.var := fun u hu heq =>
    hnew (heq ▸ hreg.declares_iff.1 (hrest u hu))
  have ha : inst'.declares a.var = true := by
    refine declares_of_mem ?_
    rw [hgrow'.vars_eq]
    exact List.mem_append_right _ (List.mem_singleton_self a)
  refine ⟨[a], [p.definition a.var], hgrow', ?_, ?_, ?_⟩
  · intro d hd
    rw [List.mem_singleton] at hd
    subst hd
    exact (hreg.newAux hv).declaresAll_mono (grows_of_addConstr hadd).prefix_vars
      (addConstr_ok hadd).1
  · intro u hu
    rcases List.mem_cons.1 hu with rfl | hu
    · exact ha
    · exact hreg.declares_mono hgrow'.prefix_vars (hrest u hu)
  · exact conservative_pairSum hxmem hymem hxvar hyvar (represents_of_pairSum hp) hdom hnew
      hrest_ne

/-- Folding the terms of a constraint extends it conservatively. -/
lemma conservative_foldTerms (hreg : inst.Registered) {ts us : List Term} {n : ℕ}
    (hts : inst.DeclaresAll ts) (rel : Relation) (rhs : Coeff)
    (h : foldTerms number ts inst = (inst', .ok (us, n))) :
    ∃ aux defs, inst.Grows inst' aux defs ∧ inst'.Registered ∧
      (∀ d ∈ defs, inst'.DeclaresAll d.terms) ∧
      Conservative inst.vars [⟨ts, rel, rhs⟩] aux (defs ++ [⟨us, rel, rhs⟩]) := by
  fun_induction foldTerms number ts inst generalizing us n with
  | case1 => cases h
  | case2 first second third fourth rest inst inst₁ t hfold inst₂ outcome hrest ih =>
    simp only [Prod.mk.injEq] at h
    obtain ⟨rfl, hok⟩ := h
    obtain ⟨⟨ts₁, m⟩, rfl, heq⟩ := map_eq_ok.1 hok
    cases heq
    have htail : inst.DeclaresAll (third :: fourth :: rest) := fun u hu =>
      hts u (List.mem_cons_of_mem _ (List.mem_cons_of_mem _ hu))
    obtain ⟨aux₁, defs₁, hgrow₁, hdefs₁, hdecl₁, hcons₁⟩ :=
      conservative_foldPair hreg htail rel rhs hfold
    have hreg₁ := hreg.foldPair hfold
    obtain ⟨aux₂, defs₂, hgrow₂, hreg₂, hdefs₂, hcons₂⟩ := ih hreg₁ hdecl₁ hrest
    have hgrow := hgrow₁.trans hgrow₂
    -- the definitions made so far do not mention the variables that come later
    have havoids := hgrow₂.avoids hreg₁.toCoherent hreg₂.toCoherent hdefs₁
    have hframe := hcons₂.frame havoids (avoids_nil aux₂)
    rw [List.append_nil, List.append_nil, hgrow₁.vars_eq, ← List.append_assoc] at hframe
    refine ⟨aux₁ ++ aux₂, defs₁ ++ defs₂, hgrow, hreg₂, ?_,
      hcons₁.trans hframe (hgrow.vars_eq ▸ hreg₂.nodup_ids)⟩
    intro d hd
    rcases List.mem_append.1 hd with hd | hd
    · exact hreg₁.declaresAll_mono hgrow₂.prefix_vars (hdefs₁ d hd)
    · exact hdefs₂ d hd
  | case3 ts inst =>
    cases h
    exact ⟨[], [], .refl _, hreg, by simp, .of_iff fun _ => Iff.rfl⟩

/-- Splitting a constraint extends it conservatively. -/
lemma conservative_addSplit (hreg : inst.Registered) {c : LinConstraint} {n : ℕ}
    (hc : inst.DeclaresAll c.terms) (h : inst.addSplit number c = (inst', .ok n)) :
    ∃ aux new, inst.Grows inst' aux new ∧ inst'.Registered ∧
      (∀ d ∈ new, inst'.DeclaresAll d.terms) ∧ Conservative inst.vars [c] aux new := by
  obtain ⟨ms, hms, ⟨-, -, hadd⟩ | ⟨-, inst₁, ts, hfold, hadd⟩⟩ := addSplit_ok h
  · have hgrow := grows_of_addConstr hadd
    obtain ⟨-, rfl⟩ := addConstr_ok hadd
    refine ⟨[], [c], hgrow, hreg.replace .., ?_, .of_iff fun _ => Iff.rfl⟩
    intro d hd
    rw [List.mem_singleton.1 hd]
    exact hreg.declaresAll_mono hgrow.prefix_vars hc
  · have hmsDecl : inst.DeclaresAll ms := by
      intro m hm
      obtain ⟨t, ht, htm⟩ := List.mem_map.1 (Term.mem_of_mem_merge hms hm)
      rw [← htm]
      exact hc t ht
    obtain ⟨aux, defs, hgrow₁, hreg₁, hdefs, hcons⟩ :=
      conservative_foldTerms hreg hmsDecl c.rel c.rhs hfold
    have hgrow₂ := grows_of_addConstr hadd
    have hgrow := hgrow₁.trans hgrow₂
    rw [List.append_nil] at hgrow
    obtain ⟨hts, rfl⟩ := addConstr_ok hadd
    -- merging comes before folding and does not change the value of the sum
    have hmerged : Conservative inst.vars [c] [] [⟨ms, c.rel, c.rhs⟩] := by
      refine .of_iff fun value => ?_
      simp only [allHold_singleton, LinConstraint.HoldsAt, Term.sumAt_merge hms]
    refine ⟨aux, defs ++ [{ c with terms := ts }], hgrow, hreg₁.replace .., ?_, ?_⟩
    · intro d hd
      rcases List.mem_append.1 hd with hd | hd
      · exact hreg₁.declaresAll_mono hgrow₂.prefix_vars (hdefs d hd)
      · rw [List.mem_singleton.1 hd]
        exact hreg₁.declaresAll_mono hgrow₂.prefix_vars hts
    · have hnodup : ((inst.vars ++ (([] : List Variable) ++ aux)).map (·.var)).Nodup := by
        rw [List.nil_append, ← hgrow₁.vars_eq]
        exact hreg₁.nodup_ids
      exact hmerged.trans (by rwa [List.append_nil]) hnodup

/-- Splitting constraints one after another extends them conservatively. -/
lemma conservative_addAllSplit (hreg : inst.Registered) {cs : List LinConstraint}
    {stats : SplitStats} (hcs : ∀ c ∈ cs, inst.DeclaresAll c.terms)
    (h : addAllSplit number cs inst = (inst', .ok stats)) :
    ∃ aux new, inst.Grows inst' aux new ∧ inst'.Registered ∧
      Conservative inst.vars cs aux new := by
  induction cs generalizing inst number stats with
  | nil =>
    cases h
    exact ⟨[], [], .refl _, hreg, .of_iff fun _ => Iff.rfl⟩
  | cons c cs ih =>
    obtain ⟨inst₁, n, stats₁, hsplit, hrest, -⟩ := addAllSplit_ok h
    obtain ⟨aux₁, new₁, hgrow₁, hreg₁, hnew₁, hcons₁⟩ :=
      conservative_addSplit hreg (hcs c List.mem_cons_self) hsplit
    have hcs₁ : ∀ d ∈ cs, inst₁.DeclaresAll d.terms := fun d hd =>
      hreg.declaresAll_mono hgrow₁.prefix_vars (hcs d (List.mem_cons_of_mem _ hd))
    obtain ⟨aux₂, new₂, hgrow₂, hreg₂, hcons₂⟩ := ih hreg₁ hcs₁ hrest
    have hgrow := hgrow₁.trans hgrow₂
    -- the constraints that wait do not mention the variables of the first one, and what it was
    -- split into does not mention those of the others
    have hwait : Avoids cs aux₁ :=
      hgrow₁.avoids hreg.toCoherent hreg₁.toCoherent fun d hd =>
        hcs d (List.mem_cons_of_mem _ hd)
    have hfirst := hcons₁.frame (avoids_nil aux₁) hwait
    have hothers := hcons₂.frame
      (hgrow₂.avoids hreg₁.toCoherent hreg₂.toCoherent hnew₁) (avoids_nil aux₂)
    rw [List.append_nil, List.append_nil, hgrow₁.vars_eq] at hothers
    exact ⟨aux₁ ++ aux₂, new₁ ++ new₂, hgrow, hreg₂,
      hfirst.trans hothers (hgrow.vars_eq ▸ hreg₂.nodup_ids)⟩

/-- **Splitting preserves the solution set.**  The split instance has the variables of the instance
first, unchanged and in their order, and new auxiliary variables after them; its name and its
objective are those of the instance.  Every solution of the instance extends in exactly one way to
the auxiliary variables, and every solution of the split instance is a solution of the instance. -/
theorem splitConstrs_preserves_solutions (hreg : inst.Registered)
    (hcs : ∀ c ∈ inst.constrs, inst.DeclaresAll c.terms) {stats : SplitStats}
    (h : inst.splitConstrs = (inst', .ok stats)) :
    ∃ aux : List Variable, inst'.vars = inst.vars ++ aux ∧
      (∀ x ∈ aux, x.origin = .auxiliary ∧ inst.declares x.var = false ∧ x.name ∉ inst.names) ∧
      inst'.name = inst.name ∧ inst'.objective = inst.objective ∧
      (∀ value, inst.IsSolution value → ∃! value' : Var → ℤ,
        (∀ v, v ∉ aux.map (·.var) → value' v = value v) ∧ inst'.IsSolution value') ∧
      ∀ value, inst'.IsSolution value → inst.IsSolution value := by
  have hempty : inst.takeConstrs.2.Registered := hreg.replace ..
  obtain ⟨aux, new, hgrow, hreg', hcons⟩ := conservative_addAllSplit hempty hcs h
  have hvars : inst'.vars = inst.vars ++ aux := hgrow.vars_eq
  have hconstrs : inst'.constrs = new := hgrow.constrs_eq
  have hids := hreg'.nodup_ids
  have hnames := hreg'.nodup_names
  rw [hvars, List.map_append] at hids
  rw [names, hvars, List.map_append] at hnames
  have hnew : ∀ x ∈ inst.vars, x.var ∉ aux.map (·.var) := fun x hx hmem =>
    List.disjoint_of_nodup_append hids (List.mem_map_of_mem hx) hmem
  refine ⟨aux, hvars, ?_, hgrow.name_eq, hgrow.objective_eq, ?_, ?_⟩
  · intro x hx
    refine ⟨(hgrow.generated x hx).1, ?_, fun hmem =>
      List.disjoint_of_nodup_append hnames hmem (List.mem_map_of_mem hx)⟩
    rw [Bool.eq_false_iff, ne_eq, hreg.declares_iff]
    exact fun hmem => List.disjoint_of_nodup_append hids hmem (List.mem_map_of_mem hx)
  · intro value hsol
    obtain ⟨value', hoff, hdom, hhold⟩ := hcons.extend value hsol.inDomains hsol.allHold
    refine ⟨value', ⟨hoff, ?_, hconstrs ▸ hhold⟩, ?_⟩
    · rw [hvars, inDomains_append]
      exact ⟨hsol.inDomains.congr fun x hx => hoff x.var (hnew x hx), hdom⟩
    · rintro other ⟨hother, hsol'⟩
      have hholds : AllHold other new := hconstrs ▸ hsol'.allHold
      have heq : ∀ x ∈ inst.vars, other x.var = value' x.var := fun x hx => by
        rw [hother x.var (hnew x hx), hoff x.var (hnew x hx)]
      funext v
      by_cases hv : v ∈ aux.map (·.var)
      · obtain ⟨x, hx, rfl⟩ := List.mem_map.1 hv
        exact hcons.determined other value' hholds hhold heq x hx
      · rw [hother v hv, hoff v hv]
  · intro value hsol
    have hdom := hsol.inDomains
    rw [hvars, inDomains_append] at hdom
    exact ⟨hdom.1, hcons.restrict value (hconstrs ▸ hsol.allHold)⟩

/-- Two constraints over four variables, one of which is named like an auxiliary: one with
fractions, a negative coefficient and a variable that occurs twice, and one without.  The objective
has a fraction and no direction. -/
def fractional : Instance := { ofVariables [
    ⟨⟨0, by decide⟩, "x", .range (-5) 5, .user⟩, ⟨⟨1, by decide⟩, "a1", .range 0 7, .user⟩,
    ⟨⟨2, by decide⟩, "y", .bool, .user⟩, ⟨⟨4, by decide⟩, "z", .range 0 9, .user⟩] with
  constrs := [
    ⟨[⟨⟨mkRat 1 2, by decide⟩, ⟨0, by decide⟩⟩, ⟨⟨mkRat (-1) 3, by decide⟩, ⟨1, by decide⟩⟩,
      ⟨1, ⟨2, by decide⟩⟩, ⟨1, ⟨4, by decide⟩⟩, ⟨1, ⟨0, by decide⟩⟩], .le, 1⟩,
    ⟨[⟨1, ⟨0, by decide⟩⟩, ⟨1, ⟨1, by decide⟩⟩, ⟨1, ⟨2, by decide⟩⟩, ⟨1, ⟨4, by decide⟩⟩], .ge, 0⟩]
  objective := ⟨.unspecified, [⟨⟨mkRat 3 2, by decide⟩, ⟨4, by decide⟩⟩]⟩ }

/-- The example is a well-formed instance. -/
lemma wellFormed_fractional : fractional.WellFormed where
  toRegistered := (registered_ofVariables (by decide) (by decide)).1.replace ..
  constrs_declared := by decide
  objective_declared := by decide

/-- Fractions, a negative coefficient, a repeated variable and two constraints that draw on one
counter: the solutions survive. -/
theorem splitConstrs_fractional : ∃ inst' aux,
    fractional.splitConstrs = (inst', .ok ⟨2, 2⟩) ∧ inst'.vars = fractional.vars ++ aux ∧
      (∀ value, fractional.IsSolution value → ∃! value' : Var → ℤ,
        (∀ v, v ∉ aux.map (·.var) → value' v = value v) ∧ inst'.IsSolution value') ∧
      ∀ value, inst'.IsSolution value → fractional.IsSolution value := by
  have h : fractional.splitConstrs = (fractional.splitConstrs.1, .ok ⟨2, 2⟩) := by decide +kernel
  obtain ⟨aux, hvars, -, -, -, hextend, hrestrict⟩ :=
    splitConstrs_preserves_solutions wellFormed_fractional.toRegistered
      wellFormed_fractional.constrs_declared h
  exact ⟨_, aux, h, hvars, hextend, hrestrict⟩

end LinearInterchange.Instance
