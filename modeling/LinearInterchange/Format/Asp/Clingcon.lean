import LinearInterchange.Format.Asp.Quoted
import LinearInterchange.Output.Limits

/-! # Writing clingcon programs

A program gives domains, sums of at most three terms, and the objective, which is optimised in a
default direction if it has none:

```text
&dom{0..5} = "x".
&sum{ 2*"x"; 3*"y" } <= 12.
&minimize{ 1*"x" }.
```
-/

namespace LinearInterchange.Asp.Clingcon

open Emit

/-- The statement with the given head, body and tail; the body is in braces. -/
def statement (head body tail : String) : String :=
  "&" ++ head ++ "\x7b" ++ body ++ "\x7d" ++ tail ++ "."

/-- The statement of a domain. -/
def domStatement (x : Variable) : String :=
  statement "dom" (toString x.domain.least ++ ".." ++ toString x.domain.greatest)
    (" = " ++ quoted x.name)

/-- A sum of terms; the empty one is zero. -/
def elements (inst : Instance) (ts : List Term) : Emit String := do
  let products ← ts.mapM fun t => do
    let name ← nameOf inst t.var
    return integer t.coeff ++ "*" ++ quoted name
  return " " ++ (if ts.isEmpty then "0" else "; ".intercalate products) ++ " "

/-- Writes a constraint. -/
def emitConstr (inst : Instance) (c : LinConstraint) : Emit Unit := do
  let body ← elements inst (mergedTerms c)
  line (statement "sum" body (" " ++ c.rel.symbol ++ " " ++ integer c.rhs))

/-- Writes the objective. -/
def emitObjective (inst : Instance) (d : Direction) : Emit Unit := do
  let body ← elements inst inst.objective.terms
  line (statement (directionWord d) body "")

/-- Writes an instance. -/
def encode (fallback : Direction) (inst : Instance) : Emit Unit := do
  checkArity "casp" 3 inst
  checkIntegral "casp" inst
  let direction ← objectiveDirection "casp" (some fallback) inst
  inst.name.forM fun name => line ("% " ++ name)
  inst.vars.forM fun x => line (domStatement x)
  inst.constrs.forM (emitConstr inst)
  direction.forM (emitObjective inst)

end LinearInterchange.Asp.Clingcon
