import LinearInterchange.Proofs.PairSum

/-!
# What a split does to an instance

A split empties the constraint list and fills it again; on the way it appends auxiliary variables
and their definitions.  Every step of a split, and so a whole one, succeeds only by growing the
instance (`Grows`): variables and constraints are appended, the name and the objective stay.  The
inversion lemmas `foldPair_ok`, `addSplit_ok` and `addAllSplit_ok` take successful steps apart.
Whether a split succeeds or fails, it keeps what new auxiliary variables and new constraints keep
(`keeps_splitConstrs`), and so it leaves an instance well formed.
-/

namespace LinearInterchange

/-- The variable has a name of the form that generated variables have. -/
def Variable.IsGenerated (x : Variable) : Prop :=
  x.origin = .auxiliary ∧
    ∃ k n : ℕ, x.name.toList = List.replicate k '_' ++ ("a" ++ toString n).toList

namespace Instance

variable {inst inst₁ inst₂ inst' : Instance} {number : ℕ}

/-! ## Growth -/

/-- The second instance is the first one with generated variables and constraints appended. -/
structure Grows (inst inst' : Instance) (aux : List Variable) (new : List LinConstraint) :
    Prop where
  /-- The name stays. -/
  name_eq : inst'.name = inst.name
  /-- The objective stays. -/
  objective_eq : inst'.objective = inst.objective
  /-- Variables are appended. -/
  vars_eq : inst'.vars = inst.vars ++ aux
  /-- Constraints are appended. -/
  constrs_eq : inst'.constrs = inst.constrs ++ new
  /-- The variables that are appended are generated ones. -/
  generated : ∀ x ∈ aux, x.IsGenerated

namespace Grows

variable {aux aux₁ aux₂ : List Variable} {new new₁ new₂ : List LinConstraint}

/-- Nothing is appended to an instance that stays as it is. -/
lemma refl (inst : Instance) : inst.Grows inst [] [] where
  name_eq := rfl
  objective_eq := rfl
  vars_eq := by simp
  constrs_eq := by simp
  generated := by simp

/-- What is appended in two steps is appended. -/
lemma trans (h₁ : inst.Grows inst₁ aux₁ new₁) (h₂ : inst₁.Grows inst₂ aux₂ new₂) :
    inst.Grows inst₂ (aux₁ ++ aux₂) (new₁ ++ new₂) where
  name_eq := h₂.name_eq.trans h₁.name_eq
  objective_eq := h₂.objective_eq.trans h₁.objective_eq
  vars_eq := by rw [h₂.vars_eq, h₁.vars_eq, List.append_assoc]
  constrs_eq := by rw [h₂.constrs_eq, h₁.constrs_eq, List.append_assoc]
  generated x hx := (List.mem_append.1 hx).elim (h₁.generated x) (h₂.generated x)

lemma prefix_vars (h : inst.Grows inst' aux new) : inst.vars <+: inst'.vars :=
  h.vars_eq ▸ List.prefix_append _ _

/-- Terms over variables of the first instance avoid the appended ones. -/
lemma avoids (h : inst.Grows inst' aux new) (hcoherent : inst.Coherent)
    (hcoherent' : inst'.Coherent) {cs : List LinConstraint}
    (hcs : ∀ c ∈ cs, inst.DeclaresAll c.terms) : Avoids cs aux := by
  intro c hc t ht hmem
  have hnodup := hcoherent'.nodup_ids
  rw [h.vars_eq, List.map_append] at hnodup
  exact List.disjoint_of_nodup_append hnodup (hcoherent.declares_iff.1 (hcs c hc t ht)) hmem

end Grows

lemma grows_of_addConstr {c : LinConstraint} (h : inst.addConstr c = .ok inst') :
    inst.Grows inst' [] [c] := by
  obtain ⟨-, rfl⟩ := addConstr_ok h
  exact ⟨rfl, rfl, (List.append_nil _).symm, rfl, by simp⟩

/-- A new auxiliary variable appends a generated variable. -/
lemma Registered.grows_of_newAux (hreg : inst.Registered) {d : Domain} {v : Var}
    (h : inst.newAux d = .ok (v, inst')) :
    ∃ x : Variable, x.var = v ∧ x.domain = d ∧ inst.Grows inst' [x] [] := by
  obtain ⟨-, hnew, rfl⟩ := hreg.newAux_ok h
  refine ⟨inst.nextAux v d, rfl, rfl, rfl, rfl, hreg.vars_append hnew,
    (List.append_nil _).symm, ?_⟩
  intro x hx
  rw [List.mem_singleton] at hx
  subst hx
  obtain ⟨k, hk⟩ := freshName_eq_underscores inst.takenNames ("a" ++ toString (inst.auxCount + 1))
  exact ⟨rfl, k, inst.auxCount + 1, hk⟩

/-! ## Steps of a split -/

/-- The sum of two terms is taken over the domains of declared variables. -/
lemma sumOf_ok {first second : Term} {p : PairSum}
    (h : inst.sumOf number first second = .ok p) :
    ∃ x y : Variable, inst.find? first.var = some x ∧ inst.find? second.var = some y ∧
      pairSum first second x.domain y.domain = .ok p := by
  unfold sumOf at h
  cases hx : inst.find? first.var with
  | none => simp [domain?, hx] at h
  | some x =>
    cases hy : inst.find? second.var with
    | none => simp [domain?, hx, hy] at h
    | some y =>
      simp only [domain?, hx, hy, Option.map_some] at h
      exact ⟨x, y, rfl, rfl, mapError_eq_ok.1 h⟩

/-- A step replaces two terms over declared variables by an auxiliary variable and adds its
definition. -/
lemma foldPair_ok {first second t : Term}
    (h : inst.foldPair number first second = (inst', .ok t)) :
    ∃ (x y : Variable) (p : PairSum) (v : Var) (inst₁ : Instance),
      inst.find? first.var = some x ∧ inst.find? second.var = some y ∧
      pairSum first second x.domain y.domain = .ok p ∧
      inst.newAux p.domain = .ok (v, inst₁) ∧
      inst₁.addConstr (p.definition v) = .ok inst' ∧
      t = ⟨unitFraction p.denominator, v⟩ := by
  unfold foldPair at h
  split at h
  · cases h
  next p hp =>
    obtain ⟨x, y, hx, hy, hsum⟩ := sumOf_ok hp
    split at h
    · cases h
    next inst₁ v hv =>
      obtain ⟨hinst, houtcome⟩ := Prod.mk.inj h
      obtain ⟨u, hadd, rfl⟩ := map_eq_ok.1 (mapError_eq_ok.1 houtcome)
      exact ⟨x, y, p, v, inst₁, hx, hy, hsum, Edit.result_eq_ok.2 hv,
        Edit.map_result_eq_ok.2 (Prod.ext hinst hadd), rfl⟩

/-- A constraint that is put back is added. -/
lemma putBack_ok {c : LinConstraint} {u : Unit} (h : inst.putBack c = (inst', .ok u)) :
    inst.addConstr c = .ok inst' := by
  obtain ⟨hinst, houtcome⟩ := Prod.mk.inj h
  exact Edit.map_result_eq_ok.2 (Prod.ext hinst (mapError_eq_ok.1 houtcome))

/-- A constraint with few variables is added as it is, another one with the terms that are left
after folding. -/
lemma addSplit_ok {c : LinConstraint} {n : ℕ} (h : inst.addSplit number c = (inst', .ok n)) :
    ∃ ms, c.merged = .ok ms ∧
      (ms.length ≤ maxTerms ∧ n = 0 ∧ inst.addConstr c = .ok inst' ∨
        maxTerms < ms.length ∧ ∃ inst₁ ts, foldTerms number ms inst = (inst₁, .ok (ts, n)) ∧
          inst₁.addConstr { c with terms := ts } = .ok inst') := by
  unfold addSplit at h
  split at h
  · cases h
  · rename_i ms hms
    refine ⟨ms, hms, ?_⟩
    split at h
    case isTrue hle =>
      cases hput : inst.putBack c with
      | mk inst₁ outcome =>
        rw [hput] at h
        simp only [Prod.mk.injEq] at h
        obtain ⟨rfl, hok⟩ := h
        obtain ⟨u, rfl, hn⟩ := map_eq_ok.1 hok
        exact .inl ⟨hle, hn.symm, putBack_ok hput⟩
    case isFalse hgt =>
      split at h
      · cases h
      · rename_i inst₁ ts count hfold
        cases hput : inst₁.putBack { c with terms := ts } with
        | mk inst₂ outcome =>
          rw [hput] at h
          simp only [Prod.mk.injEq] at h
          obtain ⟨rfl, hok⟩ := h
          obtain ⟨u, rfl, rfl⟩ := map_eq_ok.1 hok
          exact .inr ⟨Nat.lt_of_not_le hgt, inst₁, ts, hfold, putBack_ok hput⟩

/-- Constraints are split one after another, and the auxiliary variables are counted. -/
lemma addAllSplit_ok {c : LinConstraint} {cs : List LinConstraint} {stats : SplitStats}
    (h : addAllSplit number (c :: cs) inst = (inst', .ok stats)) :
    ∃ inst₁ n stats₁, inst.addSplit number c = (inst₁, .ok n) ∧
      addAllSplit (number + 1) cs inst₁ = (inst', .ok stats₁) ∧
      stats = ⟨stats₁.split + (if n = 0 then 0 else 1), stats₁.aux + n⟩ := by
  unfold addAllSplit at h
  split at h
  · cases h
  · rename_i inst₁ n hsplit
    cases hrest : addAllSplit (number + 1) cs inst₁ with
    | mk inst₂ outcome =>
      rw [hrest] at h
      simp only [Prod.mk.injEq] at h
      obtain ⟨rfl, hok⟩ := h
      obtain ⟨stats₁, rfl, heq⟩ := map_eq_ok.1 hok
      exact ⟨inst₁, n, stats₁, hsplit, hrest, heq.symm⟩

lemma Registered.foldPair (h : inst.Registered) {first second t : Term}
    (hf : inst.foldPair number first second = (inst', .ok t)) : inst'.Registered := by
  obtain ⟨x, y, p, v, inst₁, -, -, -, hv, hadd, -⟩ := foldPair_ok hf
  obtain ⟨-, rfl⟩ := addConstr_ok hadd
  exact (h.newAux hv).replace ..

/-! ## What a split keeps

A split changes an instance by new auxiliary variables and new constraints only.  So it keeps all
that these two keep, also where it fails. -/

section Keeps

variable {P : Instance → Prop}
  (hnewAux : ∀ {inst inst' : Instance} {d : Domain} {v : Var}, P inst →
    inst.newAux d = .ok (v, inst') → P inst')
  (haddConstr : ∀ {inst inst' : Instance} {c : LinConstraint}, P inst →
    inst.addConstr c = .ok inst' → P inst')

include haddConstr

/-- A call that adds a constraint keeps what new constraints keep. -/
lemma keeps_addConstr (h : P inst) (c : LinConstraint) : P (Edit.addConstr inst c).1 :=
  (Edit.atomic_addConstr inst c).keeps h fun _ _ hadd => haddConstr h (Edit.map_result_eq_ok.2 hadd)

/-- Putting a constraint back keeps what new constraints keep. -/
lemma keeps_putBack (h : P inst) (c : LinConstraint) : P (inst.putBack c).1 :=
  keeps_addConstr haddConstr h c

include hnewAux

/-- A step keeps what new variables and constraints keep. -/
lemma keeps_foldPair (h : P inst) (first second : Term) :
    P (inst.foldPair number first second).1 := by
  unfold Instance.foldPair
  split
  · exact h
  next p _ =>
    have haux : P (Edit.newAux inst p.domain).1 :=
      (Edit.atomic_newAux inst p.domain).keeps h fun _ _ hn =>
        hnewAux h (Edit.result_eq_ok.2 hn)
    split
    next inst₁ e heq =>
      rw [heq] at haux
      exact haux
    next inst₁ v heq =>
      rw [heq] at haux
      exact keeps_addConstr haddConstr haux _

/-- Folding keeps what new variables and constraints keep. -/
lemma keeps_foldTerms (h : P inst) (ts : List Term) : P (Instance.foldTerms number ts inst).1 := by
  fun_induction Instance.foldTerms number ts inst with
  | case1 first second _ _ _ inst inst₁ e hfold =>
    have hstep : P (inst.foldPair number first second).1 :=
      keeps_foldPair hnewAux haddConstr h first second
    rw [hfold] at hstep
    exact hstep
  | case2 first second _ _ _ inst inst₁ t hfold inst₂ outcome hrest ih =>
    have hstep : P (inst.foldPair number first second).1 :=
      keeps_foldPair hnewAux haddConstr h first second
    rw [hfold] at hstep
    rw [hrest] at ih
    exact ih hstep
  | case3 => exact h

/-- Splitting a constraint keeps what new variables and constraints keep. -/
lemma keeps_addSplit (h : P inst) (c : LinConstraint) : P (inst.addSplit number c).1 := by
  unfold Instance.addSplit
  split
  · exact h
  · rename_i ms _
    split
    · exact keeps_putBack haddConstr h c
    · have hfold : P (Instance.foldTerms number ms inst).1 :=
        keeps_foldTerms hnewAux haddConstr h ms
      split
      · rename_i inst₁ e heq
        rw [heq] at hfold
        exact hfold
      · rename_i inst₁ ts count heq
        rw [heq] at hfold
        exact keeps_putBack haddConstr hfold _

/-- Splitting constraints keeps what new variables and constraints keep. -/
lemma keeps_addAllSplit (h : P inst) (cs : List LinConstraint) :
    P (Instance.addAllSplit number cs inst).1 := by
  induction cs generalizing inst number with
  | nil => exact h
  | cons c cs ih =>
    have hstep : P (inst.addSplit number c).1 := keeps_addSplit hnewAux haddConstr h c
    unfold Instance.addAllSplit
    split
    · rename_i inst₁ e heq
      rw [heq] at hstep
      exact hstep
    · rename_i inst₁ n heq
      rw [heq] at hstep
      exact ih hstep

/-- A split keeps what new variables and constraints keep once the constraints are taken out. -/
lemma keeps_splitConstrs (h : P inst.takeConstrs.2) : P inst.splitConstrs.1 :=
  keeps_addAllSplit hnewAux haddConstr h _

end Keeps

/-- A split keeps an instance well formed, also where it fails. -/
lemma WellFormed.splitConstrs (h : inst.WellFormed) : inst.splitConstrs.1.WellFormed :=
  keeps_splitConstrs (fun h hn => h.newAux hn) (fun h ha => h.addConstr ha) h.takeConstrs

end Instance

end LinearInterchange
