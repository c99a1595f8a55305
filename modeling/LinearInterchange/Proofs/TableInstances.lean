import LinearInterchange.Proofs.TableColumns

/-!
# The instance of a table

A table that is built into an instance is found in it again: the variables are the columns in order,
numbered from zero, and the terms of a constraint or of the objective are the entries in order, each
over the variable with the number of its column.

What is built depends neither on the places of the columns nor on how a column came to be integer,
as long as the domains are the same (`build_congr`).
-/

namespace LinearInterchange.Table

variable {settings : Settings} {cols : Columns} {inst inst' : Instance} {vars : List Var}

/-- The terms are over the variables with the numbers of the columns of the entries. -/
def TermsOf (es : List Entry) (ts : List Term) : Prop :=
  ts.map (fun t => (t.var.id.toNat, t.coeff)) = es.map fun e => (e.column, e.coeff)

/-- Variables are numbered from zero. -/
def Numbered (vars : List Var) : Prop :=
  vars.map (·.id.toNat) = List.range vars.length

/-- Entries become terms over the variables of their columns. -/
lemma termsOf_of_mapM (hvars : Numbered vars) {es : List Entry} {ts : List Term}
    (h : es.mapM (Entry.term vars) = .ok ts) : TermsOf es ts := by
  have hall := mapM_eq_ok.1 h
  clear h
  induction hall with
  | nil => rfl
  | @cons e t es ts hterm _ ih =>
    rw [TermsOf, List.map_cons, List.map_cons, ih]
    refine congrArg (· :: _) ?_
    unfold Entry.term at hterm
    split at hterm
    next v hv =>
      obtain rfl := Except.ok.inj hterm
      have hid : (vars.map (·.id.toNat))[e.column]? = some v.id.toNat := by
        rw [List.getElem?_map, hv, Option.map_some]
      rw [hvars] at hid
      obtain ⟨hlt, hid⟩ := List.getElem?_eq_some_iff.1 hid
      rw [List.getElem_range] at hid
      rw [hid]
    next => cases hterm

/-- What a column is declared with. -/
structure Declares (settings : Settings) (c : Column) (x : Variable) : Prop where
  name : x.name = c.name
  domain : c.domain settings = .ok x.domain

/-- The variables of an instance are those of the columns, numbered from zero. -/
structure Carries (settings : Settings) (cols : Columns) (vars : List Var) (inst : Instance) :
    Prop where
  registered : inst.Registered
  columns : List.Forall₂ (Declares settings) cols inst.vars
  declared : inst.vars.map (·.var) = vars
  numbered : Numbered vars
  used : inst.ids.used.toNat = vars.length

/-- A column is declared as one more variable. -/
lemma Carries.declare {c : Column} (h : Carries settings cols vars inst)
    {r : List Var × Instance} (hdeclare : c.declare settings (vars, inst) = .ok r) :
    Carries settings (cols ++ [c]) r.1 r.2 ∧ r.2.name = inst.name ∧ r.2.constrs = inst.constrs := by
  obtain ⟨d, hd, hdeclare⟩ := bind_eq_ok.1 (mapError_eq_ok.1 hdeclare)
  obtain ⟨⟨v, inst₁⟩, hvar, heq⟩ := bind_eq_ok.1 hdeclare
  cases heq
  obtain ⟨hid, hnew, rfl⟩ := h.registered.declare_ok (mapError_eq_ok.1 hvar)
  have hvars := h.registered.vars_append hnew
  have hnumber : v.id.toNat = vars.length := by rw [hid, h.used]
  refine ⟨⟨h.registered.append hnew, ?_, ?_, ?_, ?_⟩, rfl, rfl⟩
  · rw [hvars]
    exact List.rel_append h.columns (.cons ⟨rfl, hd⟩ .nil)
  · rw [hvars, List.map_append, h.declared]
    rfl
  · rw [Numbered, List.map_append, h.numbered, List.length_append, List.length_singleton,
      List.range_succ, List.map_singleton, hnumber]
  · show (inst.ids.mark v).2.used.toNat = _
    rw [IdCounter.used_mark, List.length_append, List.length_singleton, hnumber, h.used]
    exact Nat.max_eq_right (Nat.le_succ _)

/-- Columns are declared as variables. -/
lemma Carries.declareAll {more : Columns} (h : Carries settings cols vars inst)
    {r : List Var × Instance}
    (hdeclare : more.foldlM (Column.declare settings) (vars, inst) = .ok r) :
    Carries settings (cols ++ more) r.1 r.2 ∧
      r.2.name = inst.name ∧ r.2.constrs = inst.constrs := by
  induction more generalizing cols vars inst with
  | nil =>
    cases hdeclare
    rw [List.append_nil]
    exact ⟨h, rfl, rfl⟩
  | cons c more ih =>
    rw [List.foldlM_cons] at hdeclare
    obtain ⟨r₁, hfirst, hrest⟩ := bind_eq_ok.1 hdeclare
    obtain ⟨hcarries, hname, hconstrs⟩ := h.declare hfirst
    rw [List.append_cons]
    obtain ⟨hall, hname', hconstrs'⟩ := ih hcarries hrest
    exact ⟨hall, hname'.trans hname, hconstrs'.trans hconstrs⟩

/-- A constraint compares the entries of a comparison with its right-hand side. -/
structure ComparisonOf (cmp : Comparison) (c : LinConstraint) : Prop where
  terms : TermsOf cmp.entries c.terms
  rel : c.rel = cmp.rel
  rhs : c.rhs = cmp.rhs

/-- Comparisons are added as constraints, in order. -/
lemma foldlM_addComparison (hvars : Numbered vars) {cmps : List Comparison}
    (h : cmps.foldlM (addComparison vars) inst = .ok inst') :
    ∃ cs, inst' = { inst with constrs := inst.constrs ++ cs } ∧
      List.Forall₂ ComparisonOf cmps cs := by
  induction cmps generalizing inst with
  | nil =>
    cases h
    exact ⟨[], by rw [List.append_nil], .nil⟩
  | cons cmp cmps ih =>
    rw [List.foldlM_cons] at h
    obtain ⟨inst₁, hfirst, hrest⟩ := bind_eq_ok.1 h
    obtain ⟨terms, hterms, hadd⟩ := bind_eq_ok.1 hfirst
    obtain ⟨-, rfl⟩ := Instance.addConstr_ok (mapError_eq_ok.1 hadd)
    obtain ⟨cs, rfl, hcs⟩ := ih hrest
    refine ⟨⟨terms, cmp.rel, cmp.rhs⟩ :: cs, ?_, .cons ?_ hcs⟩
    · simp only [List.append_assoc, List.singleton_append]
    · exact ⟨termsOf_of_mapM hvars hterms, rfl, rfl⟩

/-- The instance of a table holds the table. -/
structure Built (settings : Settings) (name : Option String) (cols : Columns)
    (constrs : List Comparison) (direction : Direction) (objective : List Entry)
    (inst : Instance) : Prop where
  name : inst.name = name
  /-- Each column has become a variable. -/
  columns : List.Forall₂ (Declares settings) cols inst.vars
  /-- The variables are numbered from zero. -/
  numbered : Numbered (inst.vars.map (·.var))
  constrs : List.Forall₂ ComparisonOf constrs inst.constrs
  direction : inst.objective.direction = direction
  objective : TermsOf objective inst.objective.terms

/-- A table that is built is found in the instance again. -/
lemma built_of_build {name : Option String} {constrs : List Comparison} {direction : Direction}
    {objective : List Entry}
    (h : build settings name cols constrs direction objective = .ok inst) :
    Built settings name cols constrs direction objective inst := by
  obtain ⟨⟨vars, inst₁⟩, hdeclare, h⟩ := bind_eq_ok.1 h
  have hempty : Instance.Registered { name } :=
    Instance.wellFormed_empty.toRegistered.replace name [] {}
  have hstart : Carries settings [] [] { name } := ⟨hempty, .nil, rfl, rfl, rfl⟩
  obtain ⟨hcarries, hname, hnone⟩ := hstart.declareAll hdeclare
  obtain ⟨inst₂, hconstrs, h⟩ := bind_eq_ok.1 (mapError_eq_ok.1 h)
  obtain ⟨cs, rfl, hcs⟩ := foldlM_addComparison hcarries.numbered hconstrs
  obtain ⟨terms, hterms, h⟩ := bind_eq_ok.1 h
  obtain ⟨-, rfl⟩ := Instance.setObjective_ok (mapError_eq_ok.1 h)
  refine ⟨hname, hcarries.columns, ?_, ?_, rfl, termsOf_of_mapM hcarries.numbered hterms⟩
  · show Numbered (inst₁.vars.map (·.var))
    rw [hcarries.declared]
    exact hcarries.numbered
  · show List.Forall₂ ComparisonOf constrs (inst₁.constrs ++ cs)
    rwa [hnone, List.nil_append]

/-! ## Tables with the same domains -/

/-- The columns have the same names, and a domain of the first one is one of the second. -/
structure Column.Refines (settings settings' : Settings) (c c' : Column) : Prop where
  name : c'.name = c.name
  domain : ∀ d, c.domain settings = .ok d → c'.domain settings' = .ok d

/-- Columns with the same names and domains make the same instance. -/
lemma build_congr {settings' : Settings} {cols' : Columns} {name : Option String}
    {constrs : List Comparison} {direction : Direction} {objective : List Entry}
    (hcols : List.Forall₂ (Column.Refines settings settings') cols cols')
    (h : build settings name cols constrs direction objective = .ok inst) :
    build settings' name cols' constrs direction objective = .ok inst := by
  -- what one column declares, the other one declares too
  have hdeclare : ∀ (r r' : List Var × Instance), cols.foldlM (Column.declare settings) r = .ok r' →
      cols'.foldlM (Column.declare settings') r = .ok r' := by
    clear h
    induction hcols with
    | nil => exact fun r r' hr => hr
    | @cons c c' cols cols' hfirst _ ih =>
      intro r r' hr
      rw [List.foldlM_cons] at hr ⊢
      obtain ⟨r₁, hr₁, hrest⟩ := bind_eq_ok.1 hr
      obtain ⟨d, hd, hvar⟩ := bind_eq_ok.1 (mapError_eq_ok.1 hr₁)
      refine bind_eq_ok.2 ⟨r₁, mapError_eq_ok.2 (bind_eq_ok.2 ⟨d, hfirst.domain d hd, ?_⟩),
        ih r₁ r' hrest⟩
      rwa [hfirst.name]
  obtain ⟨r, hr, h⟩ := bind_eq_ok.1 h
  exact bind_eq_ok.2 ⟨r, hdeclare _ r hr, h⟩

/-- Whether a column has a domain depends on how it came to be integer only in that it is. -/
lemma Column.domain_eq_ok {c c' : Column} {settings' : Settings} {d : Domain}
    (h : c.domain settings = .ok d) (hname : c'.name = c.name) (hbinary : c'.binary = c.binary)
    (hlower : c'.lower = c.lower) (hupper : c'.upper = c.upper)
    (hdefault : settings'.defaultUpper = settings.defaultUpper)
    (hinteger : c'.integer = true ∨ settings'.allInteger = true) :
    c'.domain settings' = .ok d := by
  have hcontinuous : ¬(!c'.integer && !settings'.allInteger) = true := by
    rcases hinteger with h | h <;> simp [h]
  unfold Column.domain at h ⊢
  rw [if_neg hcontinuous, hbinary, hlower, hupper, hdefault, hname]
  split at h
  · cases h
  · exact h

/-- A column with a domain counts as integer. -/
lemma Column.integer_of_domain {c : Column} {d : Domain} (h : c.domain settings = .ok d) :
    c.integer = true ∨ settings.allInteger = true := by
  unfold Column.domain at h
  split at h
  · cases h
  next hinteger => simpa [or_iff_not_imp_left] using hinteger

end LinearInterchange.Table
