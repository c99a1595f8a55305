import LinearInterchange.Conversion.Writer
import LinearInterchange.Proofs.Emission
import LinearInterchange.Proofs.Merging
import LinearInterchange.Proofs.Scaling

/-!
# What a solver is told

A solver is told a problem over integers and names: variables with their bounds, comparisons of
sums with integers, and a sum to optimise.  `Problem` is such a problem apart from the language that
it is told in, and `Problem.Shows` says that it is the problem of an instance: nothing is left out,
nothing changes its place, and integers have the exact values of the coefficients.

Writers check an instance before they emit anything.  The last part of this file is about what is
known of an instance that passed these checks.
-/

namespace LinearInterchange

/-- The way in which a solver is told to optimise. -/
inductive Sense where
  | minimize
  | maximize
  deriving DecidableEq

namespace Sense

/-- The direction of the optimisation. -/
def direction : Sense → Direction
  | minimize => .minimize
  | maximize => .maximize

/-- The word for a sense. -/
def word : Sense → String
  | minimize => "minimize"
  | maximize => "maximize"

/-- The sense that is told for a direction. -/
def ofDirection : Direction → Sense
  | .maximize => .maximize
  | _ => .minimize

end Sense

namespace Problem

/-- A variable with an integer factor. -/
structure Product where
  factor : ℤ
  name : String
  deriving DecidableEq

/-- A variable with its bounds. -/
structure Column where
  name : String
  least : ℤ
  greatest : ℤ
  deriving DecidableEq

/-- The comparison of a sum with an integer. -/
structure Row where
  rel : Relation
  rhs : ℤ
  products : List Product
  deriving DecidableEq

/-- A sum to optimise, perhaps through a variable that stands for its value. -/
structure Goal where
  sense : Sense
  products : List Product
  column : Option Column
  deriving DecidableEq

end Problem

/-- A problem as a solver is told it. -/
structure Problem where
  name : Option String
  columns : List Problem.Column
  rows : List Problem.Row
  goal : Option Problem.Goal
  deriving DecidableEq

/-! ## The problem of an instance -/

/-- The direction in which a format optimises objectives that have none of their own. -/
def OutputFormat.fallback? : OutputFormat → Option Direction
  | .clingcon fallback => some fallback
  | _ => none

/-- The direction in which a format optimises an objective. -/
def OutputFormat.directionOf (f : OutputFormat) (o : Objective) : Direction :=
  if o.direction = .unspecified then f.fallback?.getD .unspecified else o.direction

/-- What a format tells of the variable that stands for the value of the objective.  It is the one
with the configured name, with underscores in front until it is new, and its bounds are those of the
objective; formats other than Sugar's have no such variable. -/
def OutputFormat.ShowsColumn (f : OutputFormat) (inst : Instance) (column : Option Problem.Column) :
    Prop :=
  match f with
  | .sugar objectiveVar => ∃ lo hi : Coeff, ∃ x : Problem.Column, column = some x ∧
      Sugar.sumRange inst inst.objective.terms = .ok (lo, hi) ∧
      x.name = freshName inst.takenNames objectiveVar ∧ (x.least : ℚ) = lo.val ∧
      (x.greatest : ℚ) = hi.val
  | _ => column = none

namespace Problem

/-- The product is that of a term: the factor has the value of its coefficient, and the name is that
of its variable. -/
structure Product.Shows (inst : Instance) (t : Term) (p : Product) : Prop where
  factor_eq : (p.factor : ℚ) = t.coeff.val
  name_eq : inst.nameOf? t.var = some p.name

/-- The column is that of a declared variable. -/
def Column.ofVariable (x : Variable) : Column where
  name := x.name
  least := x.domain.least.toInt
  greatest := x.domain.greatest.toInt

/-- The row is that of a constraint, with one product for each of its merged terms. -/
structure Row.Shows (inst : Instance) (c : LinConstraint) (r : Row) : Prop where
  rel_eq : r.rel = c.rel
  rhs_eq : (r.rhs : ℚ) = c.rhs.val
  products : List.Forall₂ (Product.Shows inst) (Emit.mergedTerms c) r.products

/-- The goal is that of the objective, in the direction in which the format optimises it. -/
structure Goal.Shows (f : OutputFormat) (inst : Instance) (g : Goal) : Prop where
  sense_eq : g.sense.direction = f.directionOf inst.objective
  products : List.Forall₂ (Product.Shows inst) inst.objective.terms g.products
  column : f.ShowsColumn inst g.column

/-- The problem is that of an instance.  It has a goal exactly if the objective has terms. -/
structure Shows (f : OutputFormat) (inst : Instance) (p : Problem) : Prop where
  name_eq : p.name = inst.name
  columns_eq : p.columns = inst.vars.map Column.ofVariable
  rows : List.Forall₂ (Row.Shows inst) inst.constrs p.rows
  goal_eq_none : inst.objective.terms = [] → p.goal = none
  goal : inst.objective.terms ≠ [] → ∃ g, p.goal = some g ∧ g.Shows f inst

/-- A goal is that of the objective. -/
lemma Shows.of_goal {f : OutputFormat} {inst : Instance} {p : Problem} (h : p.Shows f inst)
    {g : Goal} (hg : g ∈ p.goal) : g.Shows f inst := by
  by_cases hterms : inst.objective.terms = []
  · rw [h.goal_eq_none hterms] at hg
    cases hg
  · obtain ⟨g', hg', hshows⟩ := h.goal hterms
    rwa [Option.mem_unique hg hg']

end Problem

/-! ## Instances that pass the checks of a writer -/

namespace Emit

open Problem

variable {inst : Instance} {format s s' : String}

/-- The sense of a direction that is known is told by its word. -/
lemma direction_ofDirection {d : Direction} (h : d ≠ .unspecified) :
    (Sense.ofDirection d).direction = d := by
  cases d with
  | minimize => rfl
  | maximize => rfl
  | unspecified => exact absurd rfl h

lemma directionWord_eq (d : Direction) : directionWord d = (Sense.ofDirection d).word := by
  cases d <;> rfl

/-- The number of variables is checked without emitting anything. -/
lemma gives_checkArity {greatest : ℕ} {u : Unit}
    (h : Gives (checkArity format greatest inst) s u s') : s' = s := by
  refine (Gives.of_checks (Q := fun _ => True) ?_ h).2
  rintro ⟨c, number⟩ - u s s' hc
  refine ⟨trivial, ?_⟩
  dsimp only at hc
  split at hc
  · exact absurd hc not_gives_throw
  · split at hc
    · exact hc.of_pure.2
    · exact absurd hc not_gives_throw

/-- An instance without fractions is one whose constraints and objective are integral. -/
lemma gives_checkIntegral {u : Unit} (h : Gives (checkIntegral format inst) s u s') :
    (∀ c ∈ inst.constrs, c.isIntegral = true) ∧ inst.objective.isIntegral = true ∧ s' = s := by
  obtain ⟨v, s₁, hcs, ho⟩ := h.of_bind
  have hpass : ∀ {a : Bool} {e : WriteError} {u : Unit} {s s' : String},
      Gives (if a then pure () else throw e : Emit Unit) s u s' → a = true ∧ s' = s := by
    intro a e u s s' h
    cases a with
    | true => exact ⟨rfl, h.of_pure.2⟩
    | false => exact absurd h not_gives_throw
  obtain ⟨hall, rfl⟩ := Gives.of_checks (Q := fun p : LinConstraint × ℕ => p.1.isIntegral = true)
    (fun _ _ _ _ _ hc => hpass hc) hcs
  obtain ⟨hobjective, rfl⟩ := hpass ho
  refine ⟨fun c hc => ?_, hobjective, rfl⟩
  have hnumbered : c ∈ (numbered inst).map Prod.fst := by
    rwa [numbered, List.zipIdx_map_fst]
  obtain ⟨p, hp, rfl⟩ := List.mem_map.1 hnumbered
  exact hall p hp

/-- There is a direction to write exactly if the objective has terms.  It is known then. -/
lemma gives_objectiveDirection {f : OutputFormat} (hf : f.fallback? ≠ some .unspecified)
    {d : Option Direction} (h : Gives (objectiveDirection format f.fallback? inst) s d s') :
    (d = none → inst.objective.terms = []) ∧
      (∀ a, d = some a → inst.objective.terms ≠ [] ∧ a = f.directionOf inst.objective ∧
        a ≠ .unspecified) ∧ s' = s := by
  unfold objectiveDirection at h
  split at h
  next hempty =>
    obtain ⟨rfl, rfl⟩ := h.of_pure
    exact ⟨fun _ => List.isEmpty_iff.1 hempty, fun a ha => (by cases ha), rfl⟩
  next hterms =>
    have hne : inst.objective.terms ≠ [] := fun h => hterms (List.isEmpty_iff.2 h)
    unfold OutputFormat.directionOf
    split at h
    next fallback hunspecified hfallback =>
      obtain ⟨rfl, rfl⟩ := h.of_pure
      refine ⟨fun hnone => (by cases hnone), fun a ha => ?_, rfl⟩
      obtain rfl := Option.some.inj ha
      rw [hfallback] at hf
      rw [hfallback, if_pos hunspecified]
      exact ⟨hne, rfl, fun h => hf (congrArg some h)⟩
    next => exact absurd h not_gives_throw
    next hspecified hother =>
      obtain ⟨rfl, rfl⟩ := h.of_pure
      -- an unspecified direction would have been replaced or refused before
      have hknown : inst.objective.direction ≠ .unspecified := by
        intro hunspecified
        cases hfallback : f.fallback? with
        | none => exact hother hunspecified hfallback
        | some fallback => exact hspecified fallback hunspecified hfallback
      refine ⟨fun hnone => (by cases hnone), fun a ha => ?_, rfl⟩
      obtain rfl := Option.some.inj ha
      rw [if_neg hknown]
      exact ⟨hne, rfl, hknown⟩

/-- The name of a variable is found in the instance. -/
lemma gives_nameOf {v : Var} {name : String} (h : Gives (nameOf inst v) s name s') :
    inst.nameOf? v = some name ∧ s' = s := by
  unfold nameOf at h
  cases hname : inst.nameOf? v with
  | none =>
    rw [hname] at h
    exact absurd h not_gives_throw
  | some found =>
    rw [hname] at h
    obtain ⟨rfl, rfl⟩ := h.of_pure
    exact ⟨rfl, rfl⟩

/-- A term with an integer coefficient is shown by its integer part and the name that is found. -/
lemma shows_product {t : Term} (ht : t.coeff.isInteger = true) {name : String}
    (hname : inst.nameOf? t.var = some name) :
    Product.Shows inst t ⟨t.coeff.truncate.toInt, name⟩ where
  factor_eq := Coeff.toInt_truncate ht
  name_eq := hname

/-- The merged terms of a constraint without fractions have integer coefficients. -/
lemma isInteger_of_mem_mergedTerms {c : LinConstraint} (h : c.isIntegral = true) {t : Term}
    (ht : t ∈ mergedTerms c) : t.coeff.isInteger = true := by
  have hterms := (LinConstraint.isIntegral_iff.1 h).2
  unfold mergedTerms at ht
  cases hm : c.merged with
  | error e =>
    rw [hm] at ht
    exact hterms t ht
  | ok ms =>
    rw [hm] at ht
    exact Term.isInteger_merge hm hterms t ht

/-- A constraint without fractions is shown by its integers if its terms are. -/
lemma shows_row {c : LinConstraint} (h : c.isIntegral = true) {ps : List Product}
    (hps : List.Forall₂ (Product.Shows inst) (mergedTerms c) ps) :
    Row.Shows inst c ⟨c.rel, c.rhs.truncate.toInt, ps⟩ where
  rel_eq := rfl
  rhs_eq := Coeff.toInt_truncate (LinConstraint.isIntegral_iff.1 h).1
  products := hps

/-- The texts of terms with integer coefficients are those of the products that show the terms. -/
lemma gives_products {ts : List Term} (hts : ∀ t ∈ ts, t.coeff.isInteger = true)
    {f : Term → String → String} {g : Product → String}
    (hf : ∀ t name, f t name = g ⟨t.coeff.truncate.toInt, name⟩) {texts : List String}
    (h : Gives (ts.mapM fun t => do
      let name ← nameOf inst t.var
      return f t name) s texts s') :
    ∃ ps, List.Forall₂ (Product.Shows inst) ts ps ∧ texts = ps.map g ∧ s' = s :=
  Gives.of_mapM (P := Product.Shows inst) (fun t ht b s s' hterm => by
    obtain ⟨name, s₁, hname, hvalue⟩ := hterm.of_bind
    obtain ⟨hfound, rfl⟩ := gives_nameOf hname
    obtain ⟨rfl, rfl⟩ := hvalue.of_pure
    exact ⟨_, shows_product (hts t ht) hfound, hf _ _, rfl⟩) h

/-- What is emitted for the objective is the text of a goal that shows it, if the objective has
terms. -/
lemma exists_goal_of_gives {α : Type} {o : Option α} {emit : α → Emit Unit} {f : OutputFormat}
    (text : Goal → String) {u : Unit} (hnone : o = none → inst.objective.terms = [])
    (hsome : ∀ a, o = some a → inst.objective.terms ≠ [] ∧
      (Gives (emit a) s u s' → ∃ g : Goal, g.Shows f inst ∧ s' = s ++ text g))
    (h : Gives (o.forM emit) s u s') :
    ∃ goal : Option Goal, (inst.objective.terms = [] → goal = none) ∧
      (inst.objective.terms ≠ [] → ∃ g, goal = some g ∧ g.Shows f inst) ∧
      s' = s ++ String.join (goal.toList.map text) := by
  rcases h.of_option_forM with ⟨ho, rfl⟩ | ⟨a, ho, hemit⟩
  · refine ⟨none, fun _ => rfl, fun hne => absurd (hnone ho) hne, ?_⟩
    exact String.append_empty.symm
  · obtain ⟨hne, hgoal⟩ := hsome a ho
    obtain ⟨g, hg, rfl⟩ := hgoal hemit
    refine ⟨some g, fun hnil => absurd hnil hne, fun _ => ⟨g, rfl, hg⟩, ?_⟩
    rw [Option.toList_some, List.map_cons, List.map_nil, String.join_cons, String.join_nil,
      String.append_empty]

end Emit

end LinearInterchange
