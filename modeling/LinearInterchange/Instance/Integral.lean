import LinearInterchange.Instance.Basic

/-! # Integer coefficients

A constraint is multiplied by the least common multiple of the denominators of its coefficients
and its right-hand side, the objective by that of its coefficients. The factors are positive, so
that neither relations nor directions change. Factors above a maximum are refused; nothing is
rounded. -/

namespace LinearInterchange

/-- The part of an instance that is scaled. -/
inductive ScaleTarget where
  /-- A constraint, counted from one. -/
  | constraint (number : Nat)
  | objective
  deriving DecidableEq

/-- The part of an instance as it is called in messages. -/
def ScaleTarget.toText : ScaleTarget → String
  | .constraint n => "constraint " ++ toString n
  | .objective => "objective"

/-- A part has no integer form within the maximal factor. -/
structure PrecisionLoss where
  target : ScaleTarget
  maxFactor : Int64
  deriving DecidableEq

/-- The wording of the refusal. -/
def PrecisionLoss.message (e : PrecisionLoss) : String :=
  "scaling " ++ e.target.toText ++ " to integer coefficients needs a factor above "
    ++ toString e.maxFactor

/-- Scaling to integers with a bound on the factors. -/
structure Normalizer where
  maxFactor : Int64 := 1000000
  positive : 0 < maxFactor := by decide
  deriving DecidableEq

namespace Normalizer

/-- The normalizer with a given maximal factor, which has to be positive. -/
def ofMax? (maxFactor : Int64) : Option Normalizer :=
  if h : 0 < maxFactor then some ⟨maxFactor, h⟩ else none

/-- The least common multiple of denominators, as long as it stays within the maximum. -/
def factor? (n : Normalizer) (cs : List Coeff) : Option Nat :=
  cs.foldlM (fun f c => (Coeff.lcm? f c.val.den).filter fun f => f ≤ n.maxFactor.toInt) 1

/-- Scales a constraint to integers and tells whether it had a fraction. -/
def scaleConstr (n : Normalizer) (number : Nat) (c : LinConstraint) :
    LinConstraint × Except PrecisionLoss Bool :=
  let loss : PrecisionLoss := ⟨.constraint number, n.maxFactor⟩
  match n.factor? (c.terms.map (·.coeff) ++ [c.rhs]) with
  | none => (c, .error loss)
  | some 1 => (c, .ok false)
  | some f =>
    let (c, outcome) := c.scale (.ofWord (Int64.ofNat f))
    (c, (outcome.mapError fun _ => loss).map fun _ => true)

/-- Scales constraints in order, counting from `number`, and counts those that had a fraction.
From the first refusal on they stay as they are. -/
def scaleConstrs (n : Normalizer) (number : Nat) :
    List LinConstraint → List LinConstraint × Except PrecisionLoss Nat
  | [] => ([], .ok 0)
  | c :: cs =>
    match n.scaleConstr number c with
    | (c, .error e) => (c :: cs, .error e)
    | (c, .ok scaled) =>
      let (rest, outcome) := n.scaleConstrs (number + 1) cs
      (c :: rest, outcome.map (· + scaled.toNat))

/-- Scales the objective to integers. -/
def scaleObjective (n : Normalizer) (o : Objective) : Objective × Except PrecisionLoss Unit :=
  let loss : PrecisionLoss := ⟨.objective, n.maxFactor⟩
  match n.factor? (o.terms.map (·.coeff)) with
  | none => (o, .error loss)
  | some 1 => (o, .ok ())
  | some f =>
    let (o, outcome) := o.scale (.ofWord (Int64.ofNat f))
    (o, outcome.mapError fun _ => loss)

/-- Scales all constraints in order and then the objective to integers, and counts the constraints
that had a fraction. On a refusal the instance is scaled up to the part at fault. -/
def normalize (n : Normalizer) (inst : Instance) : Instance × Except PrecisionLoss Nat :=
  match n.scaleConstrs 1 inst.constrs with
  | (constrs, .error e) => ({ inst with constrs }, .error e)
  | (constrs, .ok count) =>
    let (objective, outcome) := n.scaleObjective inst.objective
    ({ inst with constrs, objective }, outcome.map fun _ => count)

end Normalizer

end LinearInterchange
