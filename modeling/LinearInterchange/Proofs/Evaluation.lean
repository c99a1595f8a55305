import LinearInterchange.Proofs.Solutions
import Mathlib.Tactic.Ring

/-!
# Constraints under partial assignments

A constraint is evaluated term by term, and there is no verdict if a variable has no value or if the
arithmetic overflows on the way.  What counts as an overflow is told by `Term.StaysInRange`, which
follows the running sum up to the first variable without a value.  So there is a verdict exactly if
all variables have values and nothing overflows, and it is the truth in exact arithmetic
(`LinConstraint.evaluate_eq_some_iff`).  The truth is the same for the scaled constraint and for the
one with merged terms, whatever their arithmetic does on the way.
-/

namespace LinearInterchange

variable {value : Var → Option Int64} {full : Var → ℤ}

/-! ## Partial assignments -/

/-- The assignment gives variables the values that the partial one gives them. -/
def Completes (value : Var → Option Int64) (full : Var → ℤ) : Prop :=
  ∀ v x, value v = some x → full v = x.toInt

/-- Zero may be taken for the values that are missing. -/
lemma completes_exactly (value : Var → Option Int64) : Completes value (exactly value) := by
  intro v x hx
  rw [exactly, hx, Option.elim_some]

/-- The terms can be added to a sum one after another without an overflow, up to the first one whose
variable has no value. -/
def Term.StaysInRange (value : Var → Option Int64) (sum : Coeff) : List Term → Prop
  | [] => True
  | t :: ts => ∀ x, value t.var = some x →
      ∃ product sum', Coeff.mul? t.coeff (.ofWord x) = some product ∧
        Coeff.add? sum product = some sum' ∧ StaysInRange value sum' ts

/-! ## Scaled sums -/

/-- The value of a scaled sum is scaled. -/
lemma Term.sumAt_scaleAll {factor : Coeff} {ts us : List Term}
    (h : scaleAll factor ts = (us, .ok ())) :
    sumAt full us = factor.val * sumAt full ts := by
  induction ts generalizing us with
  | nil =>
    cases h
    rw [sumAt_nil, mul_zero]
  | cons t ts ih =>
    rw [scaleAll] at h
    split at h
    · cases h
    next a ha =>
      obtain ⟨rfl, hok⟩ := Prod.mk.inj h
      rw [sumAt_cons, sumAt_cons, ih (Prod.ext rfl hok), Coeff.val_of_mul ha]
      ring

namespace LinConstraint

variable {c c' : LinConstraint} {b : Bool}

/-- All variables of the constraint have values. -/
def Covered (value : Var → Option Int64) (c : LinConstraint) : Prop :=
  ∀ t ∈ c.terms, ∃ x, value t.var = some x

/-- A constraint that is scaled holds where it held before. -/
lemma holdsAt_scale {factor : Coeff} (h : c.scale factor = (c', .ok ())) :
    c'.HoldsAt full ↔ c.HoldsAt full := by
  unfold scale at h
  split at h
  · cases h
  next hpositive =>
    rw [not_le] at hpositive
    split at h
    · cases h
    next terms hterms =>
      split at h
      · cases h
      next rhs hrhs =>
        cases h
        rw [HoldsAt, HoldsAt, Term.sumAt_scaleAll hterms, Coeff.val_of_mul hrhs,
          mul_comm c.rhs.val]
        exact Relation.compares_mul hpositive

/-- A constraint with merged terms holds where it held before. -/
lemma holdsAt_merged {ms : List Term} (h : c.merged = .ok ms) :
    HoldsAt full { c with terms := ms } ↔ c.HoldsAt full := by
  rw [HoldsAt, HoldsAt, Term.sumAt_merge h]

/-! ## Verdicts -/

/-- A sum has a value exactly if its variables have values and nothing overflows. -/
lemma exists_sumUnder?_iff {ts : List Term} {sum : Coeff} :
    (∃ s, sumUnder? value sum ts = some s) ↔
      (∀ t ∈ ts, ∃ x, value t.var = some x) ∧ Term.StaysInRange value sum ts := by
  induction ts generalizing sum with
  | nil => exact iff_of_true ⟨sum, rfl⟩ ⟨List.forall_mem_nil _, True.intro⟩
  | cons t ts ih =>
    constructor
    · rintro ⟨s, h⟩
      obtain ⟨x, product, sum', hx, hproduct, hsum, h⟩ := sumUnder?_cons_eq_some.1 h
      obtain ⟨hvalues, hrange⟩ := ih.1 ⟨s, h⟩
      refine ⟨List.forall_mem_cons.2 ⟨⟨x, hx⟩, hvalues⟩, fun y hy => ?_⟩
      obtain rfl := Option.some.inj (hx.symm.trans hy)
      exact ⟨product, sum', hproduct, hsum, hrange⟩
    · rintro ⟨hvalues, hrange⟩
      obtain ⟨⟨x, hx⟩, hvalues⟩ := List.forall_mem_cons.1 hvalues
      obtain ⟨product, sum', hproduct, hsum, hrange⟩ := hrange x hx
      obtain ⟨s, hs⟩ := ih.2 ⟨hvalues, hrange⟩
      exact ⟨s, sumUnder?_cons_eq_some.2 ⟨x, product, sum', hx, hproduct, hsum, hs⟩⟩

/-- Whether a constraint holds does not depend on how the values that it does not need are
completed. -/
lemma Covered.holdsAt_iff (h : c.Covered value) (hfull : Completes value full) :
    c.HoldsAt full ↔ c.HoldsAt (exactly value) := by
  have hagree : ∀ t ∈ c.terms, full t.var = exactly value t.var := by
    intro t ht
    obtain ⟨x, hx⟩ := h t ht
    rw [hfull _ _ hx, completes_exactly value _ _ hx]
  rw [HoldsAt, HoldsAt, Term.sumAt_congr hagree]

/-- **There is a verdict exactly if all variables have values and nothing overflows**, and then it
is the truth in exact arithmetic. -/
lemma evaluate_eq_some_iff : c.evaluate value = some b ↔
    c.Covered value ∧ Term.StaysInRange value 0 c.terms ∧
      (b = true ↔ c.HoldsAt (exactly value)) := by
  constructor
  · intro h
    obtain ⟨lhs, hlhs, -⟩ := Option.map_eq_some_iff.1 h
    obtain ⟨hcovered, hrange⟩ := exists_sumUnder?_iff.1 ⟨lhs, hlhs⟩
    exact ⟨hcovered, hrange, holdsAt_of_evaluate h⟩
  · rintro ⟨hcovered, hrange, hb⟩
    obtain ⟨lhs, hlhs⟩ := exists_sumUnder?_iff.2 ⟨hcovered, hrange⟩
    have heval : c.evaluate value = some (c.rel.holds lhs c.rhs) := by
      rw [evaluate, hlhs]
      rfl
    rw [heval, Option.some.injEq, Bool.eq_iff_iff, holdsAt_of_evaluate heval, hb]

/-- **Verdicts are never wrong.**  If a constraint is given a verdict under a partial assignment,
all its variables have values, and the verdict is the truth of the constraint in exact arithmetic
under every assignment with these values.  So any verdict on the constraint that is scaled by a
positive factor, and any on the constraint with its terms merged, is the same one. -/
theorem evaluate_sound (h : c.evaluate value = some b) :
    c.Covered value ∧
      (∀ full, Completes value full → (b = true ↔ c.HoldsAt full)) ∧
      (∀ factor c' b', c.scale factor = (c', .ok ()) → c'.evaluate value = some b' → b' = b) ∧
      (∀ ms b', c.merged = .ok ms → evaluate value { c with terms := ms } = some b' → b' = b) := by
  obtain ⟨hcovered, -, htruth⟩ := evaluate_eq_some_iff.1 h
  refine ⟨hcovered, fun full hfull => ?_, fun factor c' b' hscale h' => ?_,
    fun ms b' hmerged h' => ?_⟩
  · rw [hcovered.holdsAt_iff hfull, htruth]
  · rw [Bool.eq_iff_iff, holdsAt_of_evaluate h', holdsAt_scale hscale, htruth]
  · rw [Bool.eq_iff_iff, holdsAt_of_evaluate h', holdsAt_merged hmerged, htruth]

/-- The constraint `1/4 x - y + 3/4 x <= 3`. -/
def quarters : LinConstraint where
  terms := [⟨⟨1 / 4, by decide +kernel⟩, ⟨30, by decide⟩⟩, ⟨.ofWord (-1), ⟨31, by decide⟩⟩,
    ⟨⟨3 / 4, by decide +kernel⟩, ⟨30, by decide⟩⟩]
  rel := .le
  rhs := .ofWord 3

/-- The values 5 of the first variable and 2 of the second one. -/
def fiveAndTwo (v : Var) : Option Int64 :=
  if v.id = 30 then some 5 else if v.id = 31 then some 2 else none

/-- Quarters are evaluated, and so are the constraint times four and the one with merged terms: all
verdicts are the same. -/
theorem evaluate_sound_quarters : quarters.evaluate fiveAndTwo = some true ∧
    quarters.HoldsAt (exactly fiveAndTwo) ∧
    (quarters.scale (.ofWord 4)).1.evaluate fiveAndTwo = some true ∧
    ∃ ms, quarters.merged = .ok ms ∧ ms.length = 2 ∧
      evaluate fiveAndTwo { quarters with terms := ms } = some true := by
  have heval : quarters.evaluate fiveAndTwo = some true := by decide +kernel
  obtain ⟨-, htruth, hscale, hmerged⟩ := evaluate_sound heval
  have hok : (quarters.scale (.ofWord 4)).2 = .ok () := by decide +kernel
  obtain ⟨b, hb⟩ : ∃ b, (quarters.scale (.ofWord 4)).1.evaluate fiveAndTwo = some b :=
    Option.isSome_iff_exists.1 (by decide +kernel)
  have hms : quarters.merged = .ok [⟨1, ⟨30, by decide⟩⟩, ⟨.ofWord (-1), ⟨31, by decide⟩⟩] := by
    decide +kernel
  have hverdict : (evaluate fiveAndTwo { quarters with
      terms := [⟨1, ⟨30, by decide⟩⟩, ⟨.ofWord (-1), ⟨31, by decide⟩⟩] }).isSome := by
    decide +kernel
  obtain ⟨b', hb'⟩ := Option.isSome_iff_exists.1 hverdict
  refine ⟨heval, (htruth _ (completes_exactly fiveAndTwo)).1 rfl, ?_, _, hms, rfl, ?_⟩
  · rw [hb, hscale _ _ b (Prod.ext rfl hok) hb]
  · rw [hb', hmerged _ b' hms hb']

end LinConstraint

end LinearInterchange
