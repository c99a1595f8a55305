import LinearInterchange.Options
import LinearInterchange.Output.Limits

/-! # Writing Sugar programs

Every variable becomes an integer variable, every constraint a comparison of a weighted sum. The
objective is the value of one more variable, which is set equal to the objective sum:

```text
(int x 0 5)
(int y 1 4)
(<= (+ (* 2 x) (* 3 y)) 12)
(int _obj 0 10)
(= _obj (+ (* 1 x) (* 1 y)))
(objective maximize _obj)
```
-/

namespace LinearInterchange.Sugar

open Emit

/-- The name can be written as a symbol: it holds none of the characters that end one, and it is
not the text of a word. -/
def isSymbol (name : String) : Bool :=
  !name.isEmpty && !name.toList.any (fun c => Text.isBlank c || "();\"".toList.contains c)
    && (Text.readWord name.toList).toOption.isNone

/-- The name of the objective variable among the options. -/
def objectiveVarOf (opts : Options) : Except ConfigError String := do
  opts.checkKeys "sugar" ["objective_var"]
  match opts.get? "objective_var" with
  | none => return "_obj"
  | some name =>
    if isSymbol name then return name
    else .error (.invalidValue "objective_var" name "expected a Sugar symbol")

/-- Refuses variables whose names are no symbols. -/
def checkNames (inst : Instance) : Emit Unit :=
  match inst.names.find? fun name => !isSymbol name with
  | some name => throw (.limit "sugar" (.notASymbol name))
  | none => pure ()

/-- The least and the greatest value of a sum of terms over the domains of their variables. -/
def sumRange (inst : Instance) (ts : List Term) : Except ValueError (Coeff × Coeff) :=
  ts.foldlM (fun (lo, hi) t => do
    let (tlo, thi) ← t.valueRange ((inst.domain? t.var).getD .bool)
    return (← lo.add tlo, ← hi.add thi)) (0, 0)

/-- A weighted sum: `0`, a single product, or products after a plus sign. -/
def sum (inst : Instance) (ts : List Term) : Emit String := do
  let products ← ts.mapM fun t => do
    let name ← nameOf inst t.var
    return "(* " ++ integer t.coeff ++ " " ++ name ++ ")"
  match products with
  | [] => return "0"
  | [p] => return p
  | ps => return "(+" ++ spaced ps ++ ")"

/-- The declaration of a variable. -/
def declaration (name least greatest : String) : String :=
  "(int " ++ name ++ " " ++ least ++ " " ++ greatest ++ ")"

/-- Writes a constraint. -/
def emitConstr (inst : Instance) (c : LinConstraint) : Emit Unit := do
  let lhs ← sum inst (mergedTerms c)
  line ("(" ++ c.rel.symbol ++ " " ++ lhs ++ " " ++ integer c.rhs ++ ")")

/-- Writes the objective through its variable, the name of which gets underscores in front until
it is new. -/
def emitObjective (objectiveVar : String) (inst : Instance) (d : Direction)
    (range : Coeff × Coeff) : Emit Unit := do
  let name := freshName inst.takenNames objectiveVar
  line (declaration name (integer range.1) (integer range.2))
  let rhs ← sum inst inst.objective.terms
  line ("(= " ++ name ++ " " ++ rhs ++ ")")
  line ("(objective " ++ directionWord d ++ " " ++ name ++ ")")

/-- The range of the objective if it is to be written. -/
def objectiveRange (inst : Instance) (direction : Option Direction) :
    Emit (Option (Direction × Coeff × Coeff)) :=
  match direction with
  | none => pure none
  | some d =>
    match sumRange inst inst.objective.terms with
    | .ok range => pure (some (d, range))
    | .error _ => throw (.limit "sugar" .objectiveRange)

/-- Writes an instance. -/
def encode (objectiveVar : String) (inst : Instance) : Emit Unit := do
  checkIntegral "sugar" inst
  checkNames inst
  let direction ← objectiveDirection "sugar" none inst
  let objective ← objectiveRange inst direction
  inst.name.forM fun name => line ("; " ++ name)
  inst.vars.forM fun x =>
    line (declaration x.name (toString x.domain.least) (toString x.domain.greatest))
  inst.constrs.forM (emitConstr inst)
  objective.forM fun (d, range) => emitObjective objectiveVar inst d range

end LinearInterchange.Sugar
