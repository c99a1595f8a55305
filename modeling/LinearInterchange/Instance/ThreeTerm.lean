import LinearInterchange.Instance.Basic

/-! # Constraints of three terms

A constraint with more than three variables is split into constraints with at most three. Its
first two terms `c x + d y` give way to a fresh auxiliary variable `a`, defined by the equality
`l c x + l d y - a = 0` over the least common denominator `l` of the two coefficients; in the
constraint itself `a` gets the coefficient `1/l`. This is repeated until three terms are left. The
domain of `a` is the range of its definition, so every solution of the constraint extends in
exactly one way. -/

namespace LinearInterchange

/-- The greatest number of variables of a constraint that is not split. -/
def maxTerms : Nat := 3

/-- Why an instance was not split. -/
inductive SplitError where
  /-- Arithmetic for a constraint, counted from one, left the range. -/
  | arithmetic (number : Nat) (source : ValueError)
  /-- The instance refused a change. -/
  | refused (e : InstanceError)
  deriving DecidableEq

/-- The wording of a failed split. -/
def SplitError.message : SplitError → String
  | .arithmetic number source => "constraint " ++ toString number ++ ": " ++ source.message
  | .refused e => e.message

/-- The number of constraints that were split and of auxiliary variables that this took. -/
structure SplitStats where
  split : Nat := 0
  aux : Nat := 0
  deriving DecidableEq

namespace Instance

/-- The auxiliary that stands for a sum of two terms: the scaled terms and the domain of their
sum over the least common denominator. -/
structure PairSum where
  denominator : Nat
  first : Term
  second : Term
  domain : Domain

/-- Scales two terms to integers and bounds their sum over the domains of their variables. -/
def pairSum (first second : Term) (dom₁ dom₂ : Domain) : Except ValueError PairSum := do
  let some l := Coeff.lcm? first.coeff.val.den second.coeff.val.den | .error .overflow
  let scale := Coeff.ofWord (Int64.ofNat l)
  let first := { first with coeff := ← first.coeff.mul scale }
  let second := { second with coeff := ← second.coeff.mul scale }
  let (lo₁, hi₁) ← first.valueRange dom₁
  let (lo₂, hi₂) ← second.valueRange dom₂
  let lo ← lo₁.add lo₂
  let hi ← hi₁.add hi₂
  return ⟨l, first, second, ← Domain.ofBounds lo.truncate hi.truncate⟩

/-- The coefficient `1/l`. -/
def unitFraction (l : Nat) : Coeff :=
  (Coeff.ofRat? (mkRat 1 l)).getD 1

/-- The sum of two terms over the domains of their variables. -/
def sumOf (inst : Instance) (number : Nat) (first second : Term) : Except SplitError PairSum := do
  let some dom₁ := inst.domain? first.var | .error (.refused (.undeclared first.var))
  let some dom₂ := inst.domain? second.var | .error (.refused (.undeclared second.var))
  (pairSum first second dom₁ dom₂).mapError (.arithmetic number)

/-- Replaces two terms by an auxiliary variable and adds its defining equality. -/
def foldPair (inst : Instance) (number : Nat) (first second : Term) :
    Instance × Except SplitError Term :=
  match inst.sumOf number first second with
  | .error e => (inst, .error e)
  | .ok sum =>
    match Edit.newAux inst sum.domain with
    | (inst, .error e) => (inst, .error (.arithmetic number e))
    | (inst, .ok aux) =>
      let definition : LinConstraint :=
        ⟨[sum.first, sum.second, ⟨Coeff.ofWord (-1), aux⟩], .eq, 0⟩
      let (inst, outcome) := Edit.addConstr inst definition
      (inst, (outcome.map fun _ => ⟨unitFraction sum.denominator, aux⟩).mapError .refused)

/-- Folds the first two terms as long as there are more than three. Returns the terms that are
left and the number of folds. On a failure the folds made so far stay. -/
def foldTerms (number : Nat) :
    List Term → Instance → Instance × Except SplitError (List Term × Nat)
  | first :: second :: third :: fourth :: rest, inst =>
    match inst.foldPair number first second with
    | (inst, .error e) => (inst, .error e)
    | (inst, .ok t) =>
      let (inst, outcome) := foldTerms number (t :: third :: fourth :: rest) inst
      (inst, outcome.map fun (terms, count) => (terms, count + 1))
  | terms, inst => (inst, .ok (terms, 0))
termination_by terms => terms.length

/-- Adds a constraint to the instance. -/
def putBack (inst : Instance) (c : LinConstraint) : Instance × Except SplitError Unit :=
  let (inst, outcome) := Edit.addConstr inst c
  (inst, outcome.mapError .refused)

/-- Adds a constraint, split if it has more than three variables, and returns the number of
auxiliary variables that this took. A constraint that is not split is added as it is. -/
def addSplit (inst : Instance) (number : Nat) (c : LinConstraint) :
    Instance × Except SplitError Nat :=
  match c.merged with
  | .error e => (inst, .error (.arithmetic number e))
  | .ok merged =>
    if merged.length ≤ maxTerms then
      let (inst, outcome) := inst.putBack c
      (inst, outcome.map fun _ => 0)
    else
      match inst.foldTerms number merged with
      | (inst, .error e) => (inst, .error e)
      | (inst, .ok (terms, count)) =>
        let (inst, outcome) := inst.putBack { c with terms }
        (inst, outcome.map fun _ => count)

/-- Adds constraints in order, counting from `number`, each split if need be. From the first
failure on none is added any more. -/
def addAllSplit (number : Nat) :
    List LinConstraint → Instance → Instance × Except SplitError SplitStats
  | [], inst => (inst, .ok {})
  | c :: cs, inst =>
    match inst.addSplit number c with
    | (inst, .error e) => (inst, .error e)
    | (inst, .ok aux) =>
      let (inst, outcome) := addAllSplit (number + 1) cs inst
      (inst, outcome.map fun stats =>
        ⟨stats.split + (if aux = 0 then 0 else 1), stats.aux + aux⟩)

/-- Splits all constraints with more than three variables; the others are kept as they are. On a
failure the constraints from the one at fault on are lost. -/
def splitConstrs (inst : Instance) : Instance × Except SplitError SplitStats :=
  let (constrs, inst) := inst.takeConstrs
  addAllSplit 1 constrs inst

end Instance

end LinearInterchange
