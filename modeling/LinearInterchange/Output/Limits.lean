import LinearInterchange.Output.Emit

/-! # Limits of solver formats

The formats of solvers know integers only, and some of them few terms in a constraint. What exceeds
a limit is refused before anything is emitted. -/

namespace LinearInterchange.Emit

/-- Constraints with their numbers, from one on. -/
def numbered (inst : Instance) : List (LinConstraint × Nat) :=
  inst.constrs.zipIdx 1

/-- Refuses constraints with more than `greatest` variables. -/
def checkArity (format : String) (greatest : Nat) (inst : Instance) : Emit Unit :=
  (numbered inst).forM fun (c, number) =>
    match c.arity with
    | .error e => throw (.limit format (.sum number e))
    | .ok n => if n ≤ greatest then pure () else throw (.limit format (.arity number n greatest))

/-- Refuses fractions in constraints and in the objective. -/
def checkIntegral (format : String) (inst : Instance) : Emit Unit := do
  (numbered inst).forM fun (c, number) =>
    if c.isIntegral then pure () else throw (.limit format (.fractionalConstraint number))
  if inst.objective.isIntegral then pure () else throw (.limit format .fractionalObjective)

/-- The direction to write: none without an objective, the default if the objective has no
direction of its own. -/
def objectiveDirection (format : String) (fallback : Option Direction) (inst : Instance) :
    Emit (Option Direction) :=
  if inst.objective.terms.isEmpty then pure none
  else
    match inst.objective.direction, fallback with
    | .unspecified, some d => pure (some d)
    | .unspecified, none => throw (.noDirection format)
    | d, _ => pure (some d)

/-- The word for a direction. -/
def directionWord : Direction → String
  | .maximize => "maximize"
  | _ => "minimize"

/-- The terms of a constraint as they are written, those of one variable summed up. -/
def mergedTerms (c : LinConstraint) : List Term :=
  c.merged.toOption.getD c.terms

/-- The text of a coefficient that is an integer. -/
def integer (c : Coeff) : String :=
  toString c.truncate

/-- The name of a variable. -/
def nameOf (inst : Instance) (v : Var) : Emit String :=
  (inst.nameOf? v).elim (throw (.undeclared v)) pure

end LinearInterchange.Emit
