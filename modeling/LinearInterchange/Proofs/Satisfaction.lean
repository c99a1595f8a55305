import LinearInterchange.Proofs.Declarations
import LinearInterchange.Proofs.Evaluation

/-!
# Whether partial assignments satisfy an instance

The constraints of an instance are evaluated one after another, up to the first one that has no
verdict or does not hold.  The documented answer (`Instance.Answers`) does not tell of such an
order: there is none if a constrained variable has no value, and otherwise it says whether all
constraints hold and no variable has a value outside its domain.  Two things come between.  A
constraint that does not hold ends the search before a missing value behind it is seen, and the
domains of variables that no constraint mentions are not looked at.  The answers are told exactly
here, with the conditions under which they are the documented ones and under which the order of the
constraints does not matter.
-/

namespace LinearInterchange

variable {value : Var → Option Int64}

/-! ## Constraints that pass -/

namespace LinConstraint

variable {c : LinConstraint}

/-- The constraint has all values that it needs, and holds. -/
def Passes (value : Var → Option Int64) (c : LinConstraint) : Prop :=
  c.Covered value ∧ c.HoldsAt (exactly value)

/-- A constraint that passes is found to hold. -/
lemma Passes.evaluate_eq (h : c.Passes value) (hrange : Term.StaysInRange value 0 c.terms) :
    c.evaluate value = some true :=
  evaluate_eq_some_iff.2 ⟨h.1, hrange, iff_of_true rfl h.2⟩

/-- A constraint with all values that does not pass is found not to hold. -/
lemma Covered.evaluate_eq (h : c.Covered value) (hrange : Term.StaysInRange value 0 c.terms)
    (hfails : ¬c.Passes value) : c.evaluate value = some false :=
  evaluate_eq_some_iff.2 ⟨h, hrange, iff_of_false Bool.false_ne_true fun hc => hfails ⟨h, hc⟩⟩

/-- There is no verdict on a constraint that lacks a value. -/
lemma evaluate_eq_none (h : ¬c.Covered value) : c.evaluate value = none := by
  cases heval : c.evaluate value with
  | none => rfl
  | some b => exact absurd (evaluate_eq_some_iff.1 heval).1 h

end LinConstraint

/-! ## The first constraint that does not pass -/

/-- The constraint is the first one of the list that does not pass. -/
def StopsAt (value : Var → Option Int64) (cs : List LinConstraint) (c : LinConstraint) : Prop :=
  ∃ before after, cs = before ++ c :: after ∧ (∀ d ∈ before, d.Passes value) ∧ ¬c.Passes value

section Stops

variable {cs : List LinConstraint} {c : LinConstraint}

/-- Where a list stops, there is a constraint of it that does not pass. -/
lemma StopsAt.mem (h : StopsAt value cs c) : c ∈ cs := by
  obtain ⟨before, after, rfl, -, -⟩ := h
  exact List.mem_append_right _ List.mem_cons_self

lemma StopsAt.not_passes (h : StopsAt value cs c) : ¬c.Passes value := by
  obtain ⟨before, after, -, -, hc⟩ := h
  exact hc

lemma stopsAt_cons (h : ¬c.Passes value) (cs : List LinConstraint) : StopsAt value (c :: cs) c :=
  ⟨[], cs, rfl, List.forall_mem_nil _, h⟩

/-- All constraints pass, or there is a first one that does not. -/
lemma passes_or_stops (value : Var → Option Int64) (cs : List LinConstraint) :
    (∀ c ∈ cs, c.Passes value) ∨ ∃ c, StopsAt value cs c := by
  induction cs with
  | nil => exact .inl (List.forall_mem_nil _)
  | cons c cs ih =>
    by_cases hc : c.Passes value
    · rcases ih with hall | ⟨d, before, after, rfl, hbefore, hd⟩
      · exact .inl (List.forall_mem_cons.2 ⟨hc, hall⟩)
      · exact .inr ⟨d, c :: before, after, rfl, List.forall_mem_cons.2 ⟨hc, hbefore⟩, hd⟩
    · exact .inr ⟨c, stopsAt_cons hc cs⟩

namespace Instance

/-- Constraints that pass are left behind. -/
lemma allHold?_append {before : List LinConstraint} (hpass : ∀ c ∈ before, c.Passes value)
    (hrange : ∀ c ∈ before, Term.StaysInRange value 0 c.terms) (cs : List LinConstraint) :
    allHold? value (before ++ cs) = allHold? value cs := by
  induction before with
  | nil => rfl
  | cons c before ih =>
    rw [List.forall_mem_cons] at hpass hrange
    rw [List.cons_append, allHold?, hpass.1.evaluate_eq hrange.1]
    exact ih hpass.2 hrange.2

lemma allHold?_of_passes (hpass : ∀ c ∈ cs, c.Passes value)
    (hrange : ∀ c ∈ cs, Term.StaysInRange value 0 c.terms) : allHold? value cs = some true := by
  rw [← List.append_nil cs, allHold?_append hpass hrange, allHold?]

/-- The first constraint that does not pass decides. -/
lemma allHold?_of_stopsAt (h : StopsAt value cs c)
    (hrange : ∀ c ∈ cs, Term.StaysInRange value 0 c.terms) :
    allHold? value cs = c.evaluate value := by
  obtain ⟨before, after, rfl, hbefore, hc⟩ := h
  rw [allHold?_append hbefore fun d hd => hrange d (List.mem_append_left _ hd), allHold?]
  split
  next htrue =>
    obtain ⟨hcovered, -, htruth⟩ := LinConstraint.evaluate_eq_some_iff.1 htrue
    exact absurd ⟨hcovered, htruth.1 rfl⟩ hc
  next => rfl

end Instance

end Stops

/-! ## Values in domains -/

/-- The value of the variable, if it has one, lies in its domain. -/
def Variable.Respected (value : Var → Option Int64) (x : Variable) : Prop :=
  ∀ w, value x.var = some w → x.domain.Includes w.toInt

/-- A word lies in a domain exactly if its integer does. -/
lemma Domain.contains_iff {d : Domain} {w : Int64} :
    d.contains w = true ↔ d.Includes w.toInt := by
  rw [Domain.contains, Bool.and_eq_true, decide_eq_true_eq, decide_eq_true_eq,
    Int64.le_iff_toInt_le, Int64.le_iff_toInt_le]
  rfl

namespace Instance

variable {inst : Instance} {c : LinConstraint} {b : Bool}

/-- Some constraint of the instance mentions the variable. -/
def Constrains (inst : Instance) (v : Var) : Prop :=
  ∃ c ∈ inst.constrs, v ∈ c.terms.map (·.var)

/-- The domains of the variables in constraints are looked at. -/
lemma all_inDomains_iff (h : inst.Registered) :
    (inst.constrs.all fun c => inst.inDomains value c.terms) = true ↔
      ∀ x ∈ inst.vars, inst.Constrains x.var → x.Respected value := by
  rw [List.all_eq_true]
  constructor
  · intro hall x hx ⟨c, hc, hmem⟩ w hw
    obtain ⟨t, ht, hvar⟩ := List.mem_map.1 hmem
    have hin := List.all_eq_true.1 (hall c hc) t ht
    rw [hvar, hw, domain?, find?_of_mem hx, Option.map_some] at hin
    exact Domain.contains_iff.1 hin
  · intro hall c hc
    refine List.all_eq_true.2 fun t ht => ?_
    split
    next d w hd hw =>
      obtain ⟨x, hx, rfl⟩ := Option.map_eq_some_iff.1 hd
      obtain ⟨hmem, hvar⟩ := h.mem_vars_of_find? hx
      rw [← hvar] at hw
      refine Domain.contains_iff.2 (hall x hmem ⟨c, hc, ?_⟩ w hw)
      rw [hvar]
      exact List.mem_map_of_mem ht
    next => rfl

/-! ## Answers -/

/-- The answer is the documented one: there is none exactly if a variable of a constraint has no
value, and otherwise it says whether all constraints hold and all values of declared variables lie
in their domains. -/
def Answers (inst : Instance) (value : Var → Option Int64) : Option Bool → Prop
  | none => ∃ c ∈ inst.constrs, ¬c.Covered value
  | some b => (∀ c ∈ inst.constrs, c.Covered value) ∧
      (b = true ↔ AllHold (exactly value) inst.constrs ∧ ∀ x ∈ inst.vars, x.Respected value)

section InRange

variable (hrange : ∀ c ∈ inst.constrs, Term.StaysInRange value 0 c.terms)
include hrange

/-- If all constraints pass, the domains of their variables decide. -/
lemma isSatisfiedBy_of_passes (h : inst.Registered)
    (hpass : ∀ c ∈ inst.constrs, c.Passes value) :
    ∃ b, inst.isSatisfiedBy value = some b ∧
      (b = true ↔ ∀ x ∈ inst.vars, inst.Constrains x.var → x.Respected value) := by
  refine ⟨_, ?_, all_inDomains_iff h⟩
  rw [isSatisfiedBy, allHold?_of_passes hpass hrange, Option.map_some, Bool.true_and]

/-- If the first constraint that does not pass has all values, the answer is that it does not hold.
-/
lemma isSatisfiedBy_of_covered (hstop : StopsAt value inst.constrs c) (hc : c.Covered value) :
    inst.isSatisfiedBy value = some false := by
  rw [isSatisfiedBy, allHold?_of_stopsAt hstop hrange,
    hc.evaluate_eq (hrange c hstop.mem) hstop.not_passes, Option.map_some, Bool.false_and]

/-- If the first constraint that does not pass lacks a value, there is no answer. -/
lemma isSatisfiedBy_of_not_covered (hstop : StopsAt value inst.constrs c)
    (hc : ¬c.Covered value) : inst.isSatisfiedBy value = none := by
  rw [isSatisfiedBy, allHold?_of_stopsAt hstop hrange, LinConstraint.evaluate_eq_none hc,
    Option.map_none]

/-- There is no answer exactly if the first constraint that does not pass lacks a value. -/
lemma isSatisfiedBy_eq_none_iff (h : inst.Registered) : inst.isSatisfiedBy value = none ↔
    ∃ c, StopsAt value inst.constrs c ∧ ¬c.Covered value := by
  constructor
  · intro hnone
    rcases passes_or_stops value inst.constrs with hpass | ⟨c, hstop⟩
    · obtain ⟨b, hb, -⟩ := isSatisfiedBy_of_passes hrange h hpass
      rw [hb] at hnone
      cases hnone
    · refine ⟨c, hstop, fun hc => ?_⟩
      rw [isSatisfiedBy_of_covered hrange hstop hc] at hnone
      cases hnone
  · rintro ⟨c, hstop, hc⟩
    exact isSatisfiedBy_of_not_covered hrange hstop hc

/-- The instance is satisfied exactly if all constraints pass and the variables that they mention
have values in their domains. -/
lemma isSatisfiedBy_eq_true_iff (h : inst.Registered) : inst.isSatisfiedBy value = some true ↔
    (∀ c ∈ inst.constrs, c.Passes value) ∧
      ∀ x ∈ inst.vars, inst.Constrains x.var → x.Respected value := by
  rcases passes_or_stops value inst.constrs with hpass | ⟨c, hstop⟩
  · obtain ⟨b, hb, hdomains⟩ := isSatisfiedBy_of_passes hrange h hpass
    rw [hb, Option.some.injEq, hdomains, and_iff_right hpass]
  · refine iff_of_false (fun htrue => ?_) fun hpass => hstop.not_passes (hpass.1 c hstop.mem)
    by_cases hc : c.Covered value
    · rw [isSatisfiedBy_of_covered hrange hstop hc] at htrue
      cases htrue
    · rw [isSatisfiedBy_of_not_covered hrange hstop hc] at htrue
      cases htrue

/-- The answer is the documented one unless a constraint that does not hold hides a missing value,
or a variable that no constraint mentions has a value outside its domain. -/
lemma answers_isSatisfiedBy_iff (h : inst.Registered) :
    inst.Answers value (inst.isSatisfiedBy value) ↔
      ((∃ c ∈ inst.constrs, ¬c.Covered value) →
        ∀ c, StopsAt value inst.constrs c → ¬c.Covered value) ∧
      ((∀ c ∈ inst.constrs, c.Passes value) →
        (∀ x ∈ inst.vars, inst.Constrains x.var → x.Respected value) →
          ∀ x ∈ inst.vars, x.Respected value) := by
  -- the scan goes through all constraints, or it stops at the first one that does not pass
  rcases passes_or_stops value inst.constrs with hpass | ⟨c, hstop⟩
  · obtain ⟨b, hb, hdomains⟩ := isSatisfiedBy_of_passes hrange h hpass
    have hcovered : ∀ c ∈ inst.constrs, c.Covered value := fun c hc => (hpass c hc).1
    have hhold : AllHold (exactly value) inst.constrs := fun c hc => (hpass c hc).2
    rw [hb, Answers, and_iff_right hcovered, and_iff_right hhold, hdomains]
    constructor
    · intro hiff
      exact ⟨fun ⟨c, hc, hnot⟩ => absurd (hcovered c hc) hnot, fun _ => hiff.1⟩
    · intro hcond
      exact ⟨hcond.2 hpass, fun hall x hx _ => hall x hx⟩
  · have hnotall : ¬∀ c ∈ inst.constrs, c.Passes value := fun hpass =>
      hstop.not_passes (hpass c hstop.mem)
    by_cases hc : c.Covered value
    · have hviolated : ¬AllHold (exactly value) inst.constrs := fun hhold =>
        hstop.not_passes ⟨hc, hhold c hstop.mem⟩
      rw [isSatisfiedBy_of_covered hrange hstop hc, Answers,
        and_iff_left (iff_of_false Bool.false_ne_true fun hall => hviolated hall.1)]
      constructor
      · intro hcovered
        exact ⟨fun ⟨d, hd, hnot⟩ => absurd (hcovered d hd) hnot, fun hpass => absurd hpass hnotall⟩
      · intro hcond d hd
        by_contra hnot
        exact hcond.1 ⟨d, hd, hnot⟩ c hstop hc
    · have hnone := isSatisfiedBy_of_not_covered hrange hstop hc
      rw [hnone]
      refine iff_of_true ⟨c, hstop.mem, hc⟩
        ⟨fun _ d hd hdc => ?_, fun hpass => absurd hpass hnotall⟩
      rw [isSatisfiedBy_of_covered hrange hd hdc] at hnone
      cases hnone

/-- There is no answer if a value is missing and all constraints that have theirs hold. -/
lemma isSatisfiedBy_eq_none (hmissing : ∃ c ∈ inst.constrs, ¬c.Covered value)
    (hhold : ∀ c ∈ inst.constrs, c.Covered value → c.HoldsAt (exactly value)) :
    inst.isSatisfiedBy value = none := by
  rcases passes_or_stops value inst.constrs with hpass | ⟨d, hstop⟩
  · obtain ⟨c, hc, hnot⟩ := hmissing
    exact absurd (hpass c hc).1 hnot
  · exact isSatisfiedBy_of_not_covered hrange hstop fun hd =>
      hstop.not_passes ⟨hd, hhold d hstop.mem hd⟩

/-- The order of the constraints does not matter exactly if no value is missing or no constraint is
found not to hold. -/
lemma isSatisfiedBy_perm_iff (h : inst.Registered) :
    (∀ cs, cs.Perm inst.constrs →
      isSatisfiedBy { inst with constrs := cs } value = inst.isSatisfiedBy value) ↔
      ((∃ c ∈ inst.constrs, ¬c.Covered value) →
        ∀ c ∈ inst.constrs, c.Covered value → c.HoldsAt (exactly value)) := by
  have hreordered : ∀ {cs : List LinConstraint}, cs.Perm inst.constrs →
      ∀ c ∈ cs, Term.StaysInRange value 0 c.terms := fun hperm c hc =>
    hrange c (hperm.mem_iff.1 hc)
  constructor
  · rintro hsame ⟨c, hc, hnot⟩ d hd hcovered
    by_contra hfails
    -- with the one constraint in front there is no answer, with the other one there is
    have hpermc := (List.perm_cons_erase hc).symm
    have hpermd := (List.perm_cons_erase hd).symm
    have hnone : isSatisfiedBy { inst with constrs := c :: inst.constrs.erase c } value = none :=
      isSatisfiedBy_of_not_covered (hreordered hpermc)
        (stopsAt_cons (fun hpass => hnot hpass.1) _) hnot
    have hfalse : isSatisfiedBy { inst with constrs := d :: inst.constrs.erase d } value =
        some false :=
      isSatisfiedBy_of_covered (hreordered hpermd)
        (stopsAt_cons (fun hpass => hfails hpass.2) _) hcovered
    rw [hsame _ hpermc] at hnone
    rw [hsame _ hpermd, hnone] at hfalse
    cases hfalse
  · intro hcond cs hperm
    have hreg : Registered { inst with constrs := cs } := h.replace inst.name cs inst.objective
    have hvars : vars { inst with constrs := cs } = inst.vars := vars_congr rfl rfl
    have htrue : isSatisfiedBy { inst with constrs := cs } value = some true ↔
        inst.isSatisfiedBy value = some true := by
      rw [isSatisfiedBy_eq_true_iff hrange h,
        isSatisfiedBy_eq_true_iff (hreordered hperm) hreg, hvars]
      simp only [Constrains, hperm.mem_iff]
    by_cases hmissing : ∃ c ∈ inst.constrs, ¬c.Covered value
    · have hhold := hcond hmissing
      rw [isSatisfiedBy_eq_none hrange hmissing hhold]
      refine isSatisfiedBy_eq_none (hreordered hperm) ?_ ?_
      · simpa only [hperm.mem_iff] using hmissing
      · simpa only [hperm.mem_iff] using hhold
    · have hanswer : ∀ {cs : List LinConstraint}, cs.Perm inst.constrs →
          ∃ b, isSatisfiedBy { inst with constrs := cs } value = some b := by
        intro cs hperm
        refine Option.ne_none_iff_exists'.1 fun hnone => ?_
        obtain ⟨c, hstop, hnot⟩ := (isSatisfiedBy_eq_none_iff (hreordered hperm)
          (h.replace inst.name cs inst.objective)).1 hnone
        exact hmissing ⟨c, hperm.mem_iff.1 hstop.mem, hnot⟩
      obtain ⟨b, hb⟩ := hanswer (.refl inst.constrs)
      obtain ⟨b', hb'⟩ := hanswer hperm
      have hb : inst.isSatisfiedBy value = some b := hb
      rw [hb, hb', Option.some.injEq, Option.some.injEq, ← Bool.eq_iff_iff] at htrue
      rw [hb, hb', htrue]

end InRange

/-- **Whether a partial assignment satisfies an instance**, where no arithmetic overflows.  There is
no answer exactly if the first constraint that does not pass lacks a value, and the instance is
satisfied exactly if all constraints pass and the variables that they mention have values in their
domains.  The answer is the documented one unless a constraint that does not hold ends the search
while a value is missing, or all constraints pass and only variables that they do not mention have
values outside their domains.  It depends on the order of the constraints just if a value is missing
and a constraint does not hold. -/
theorem isSatisfiedBy_exact {inst : Instance} (h : inst.WellFormed)
    (hrange : ∀ c ∈ inst.constrs, Term.StaysInRange value 0 c.terms) :
    (inst.isSatisfiedBy value = none ↔ ∃ c, StopsAt value inst.constrs c ∧ ¬c.Covered value) ∧
      (inst.isSatisfiedBy value = some true ↔ (∀ c ∈ inst.constrs, c.Passes value) ∧
        ∀ x ∈ inst.vars, inst.Constrains x.var → x.Respected value) ∧
      (inst.Answers value (inst.isSatisfiedBy value) ↔
        ((∃ c ∈ inst.constrs, ¬c.Covered value) →
          ∀ c, StopsAt value inst.constrs c → ¬c.Covered value) ∧
        ((∀ c ∈ inst.constrs, c.Passes value) →
          (∀ x ∈ inst.vars, inst.Constrains x.var → x.Respected value) →
            ∀ x ∈ inst.vars, x.Respected value)) ∧
      ((∀ cs, cs.Perm inst.constrs →
        isSatisfiedBy { inst with constrs := cs } value = inst.isSatisfiedBy value) ↔
        ((∃ c ∈ inst.constrs, ¬c.Covered value) →
          ∀ c ∈ inst.constrs, c.Covered value → c.HoldsAt (exactly value))) :=
  ⟨isSatisfiedBy_eq_none_iff hrange h.toRegistered, isSatisfiedBy_eq_true_iff hrange h.toRegistered,
    answers_isSatisfiedBy_iff hrange h.toRegistered, isSatisfiedBy_perm_iff hrange h.toRegistered⟩

/-- The constraint `x <= 0` over the first variable. -/
def firstIsZero : LinConstraint :=
  ⟨[⟨1, ⟨40, by decide⟩⟩], .le, 0⟩

/-- The constraint `y <= 1` over the second variable. -/
def secondIsBit : LinConstraint :=
  ⟨[⟨1, ⟨41, by decide⟩⟩], .le, 1⟩

/-- Two bits, the first of which has to be 0. -/
def twoBits : Instance :=
  { ofVariables [⟨⟨40, by decide⟩, "x", .bool, .user⟩, ⟨⟨41, by decide⟩, "y", .bool, .user⟩] with
    constrs := [firstIsZero, secondIsBit] }

/-- A value for the first variable only. -/
def onlyFirst (w : Int64) (v : Var) : Option Int64 :=
  if v.id = 40 then some w else none

/-- The example is a well-formed instance. -/
lemma wellFormed_twoBits : twoBits.WellFormed where
  toRegistered := (registered_ofVariables (by decide) (by decide)).1.replace _ _ _
  constrs_declared := by decide
  objective_declared := by decide

/-- The second variable has no value. -/
lemma not_covered_secondIsBit (w : Int64) : ¬secondIsBit.Covered (onlyFirst w) := by
  intro hcovered
  obtain ⟨x, hx⟩ := hcovered _ List.mem_cons_self
  cases hx

/-- Nothing overflows where the first constraint has a verdict. -/
lemma staysInRange_twoBits {w : Int64} {b : Bool}
    (h : firstIsZero.evaluate (onlyFirst w) = some b) :
    ∀ c ∈ twoBits.constrs, Term.StaysInRange (onlyFirst w) 0 c.terms := by
  refine List.forall_mem_cons.2 ⟨(LinConstraint.evaluate_eq_some_iff.1 h).2.1, ?_⟩
  refine List.forall_mem_singleton.2 fun x hx => ?_
  cases hx

/-- Where the first constraint holds and the second one lacks a value, there is no answer, as it is
documented, and the order of the constraints does not matter. -/
theorem isSatisfiedBy_exact_twoBits : twoBits.isSatisfiedBy (onlyFirst 0) = none ∧
    twoBits.Answers (onlyFirst 0) none ∧
    ∀ cs, cs.Perm twoBits.constrs →
      isSatisfiedBy { twoBits with constrs := cs } (onlyFirst 0) = none := by
  have heval : firstIsZero.evaluate (onlyFirst 0) = some true := by decide +kernel
  have hnone : twoBits.isSatisfiedBy (onlyFirst 0) = none := by decide +kernel
  obtain ⟨hstop, -, -, horder⟩ :=
    isSatisfiedBy_exact wellFormed_twoBits (staysInRange_twoBits heval)
  obtain ⟨c, hc, hmissing⟩ := hstop.1 hnone
  refine ⟨hnone, ⟨c, hc.mem, hmissing⟩, fun cs hperm => ?_⟩
  rw [horder.2 (fun _ => List.forall_mem_cons.2 ⟨fun _ => ?_, ?_⟩) cs hperm, hnone]
  · exact (LinConstraint.holdsAt_of_evaluate heval).1 rfl
  · exact List.forall_mem_singleton.2 fun hcovered => absurd hcovered (not_covered_secondIsBit 0)

/-- A constraint that does not hold hides that a value is missing, unless it stands behind; and
without constraints a value outside its domain satisfies the instance. -/
theorem isSatisfiedBy_ne_documented :
    (twoBits.WellFormed ∧
      (∀ c ∈ twoBits.constrs, Term.StaysInRange (onlyFirst 1) 0 c.terms) ∧
      twoBits.isSatisfiedBy (onlyFirst 1) = some false ∧
      ¬twoBits.Answers (onlyFirst 1) (some false) ∧
      isSatisfiedBy { twoBits with constrs := [secondIsBit, firstIsZero] } (onlyFirst 1) = none) ∧
    (isSatisfiedBy { twoBits with constrs := [] } (onlyFirst 2) = some true ∧
      ¬Answers { twoBits with constrs := [] } (onlyFirst 2) (some true)) := by
  have heval : firstIsZero.evaluate (onlyFirst 1) = some false := by decide +kernel
  refine ⟨⟨wellFormed_twoBits, staysInRange_twoBits heval, by decide +kernel, ?_,
    by decide +kernel⟩, by decide +kernel, ?_⟩
  · rintro ⟨hcovered, -⟩
    exact not_covered_secondIsBit 1 (hcovered _ (List.mem_cons_of_mem _ List.mem_cons_self))
  · rintro ⟨-, hdomains⟩
    have hmem : ⟨⟨40, by decide⟩, "x", .bool, .user⟩ ∈ vars { twoBits with constrs := [] } := by
      decide
    have hrespected := (hdomains.1 rfl).2 _ hmem 2 (by decide +kernel)
    exact absurd hrespected (by decide +kernel)

end Instance

end LinearInterchange
