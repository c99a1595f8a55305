import LinearInterchange.Format.Asp.Quoted
import LinearInterchange.Output.Limits

/-! # Writing aspartame facts

The facts describe variables, numbered constraints of at most three terms, and the objective:

```text
var(int,"x",range(0,5)).
constraint(1,le,10).
term(1,2,"x").
objective(minimize).
objterm(1,"x").
```
-/

namespace LinearInterchange.Asp.Facts

open Emit

/-- The atom for a comparison. -/
def relationAtom : Relation → String
  | .le => "le"
  | .eq => "eq"
  | .ge => "ge"

/-- The fact of a variable. -/
def varFact (x : Variable) : String :=
  "var(int," ++ quoted x.name ++ ",range(" ++ toString x.domain.least ++ ","
    ++ toString x.domain.greatest ++ "))."

/-- The facts of a constraint and of its terms. -/
def emitConstr (inst : Instance) (c : LinConstraint) (number : Nat) : Emit Unit := do
  line ("constraint(" ++ toString number ++ "," ++ relationAtom c.rel ++ ","
    ++ integer c.rhs ++ ").")
  (mergedTerms c).forM fun t => do
    let name ← nameOf inst t.var
    line ("term(" ++ toString number ++ "," ++ integer t.coeff ++ "," ++ quoted name ++ ").")

/-- The facts of the objective. -/
def emitObjective (inst : Instance) (d : Direction) : Emit Unit := do
  line ("objective(" ++ directionWord d ++ ").")
  inst.objective.terms.forM fun t => do
    let name ← nameOf inst t.var
    line ("objterm(" ++ integer t.coeff ++ "," ++ quoted name ++ ").")

/-- Writes an instance. -/
def encode (inst : Instance) : Emit Unit := do
  checkArity "aspartame" 3 inst
  checkIntegral "aspartame" inst
  let direction ← objectiveDirection "aspartame" none inst
  inst.name.forM fun name => line ("% " ++ name)
  inst.vars.forM fun x => line (varFact x)
  (numbered inst).forM fun (c, number) => emitConstr inst c number
  direction.forM (emitObjective inst)

end LinearInterchange.Asp.Facts
