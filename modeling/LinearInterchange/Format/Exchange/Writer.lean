import LinearInterchange.Format.Exchange.Line
import LinearInterchange.Output.Emit

/-! # Writing the exchange format -/

namespace LinearInterchange.Exchange

/-- The comment that may stand at the head of the text. -/
def header (inst : Instance) : String :=
  "c " ++ toString inst.order.length ++ " variables, " ++ toString inst.constrs.length
    ++ " constraints, written by ilpconv"

/-- Terms as they are written. -/
def termTexts (ts : List Term) : List TermText :=
  ts.map fun t => (t.coeff.toText.toList, t.var.id)

/-- The line of a variable. -/
def varLine (x : Variable) : Line :=
  let bounds :=
    match x.domain with
    | .bool => none
    | .range lb ub => some (lb, ub)
  .var x.var.id x.name.toList bounds (x.origin = .auxiliary)

/-- The line of the objective. There is none if the objective says nothing. -/
def objectiveLines (o : Objective) : List Line :=
  if o.terms.isEmpty && !o.direction.isSpecified then []
  else [.objective o.direction (termTexts o.terms)]

/-- The line of a constraint. -/
def constrLine (c : LinConstraint) : Line :=
  .constr c.rel c.rhs.toText.toList (termTexts c.terms)

/-- The lines of an instance: its name, its variables, its objective and its constraints. -/
def lines (inst : Instance) : List Line :=
  (inst.name.map fun n => Line.name n.toList).toList ++ inst.vars.map varLine
    ++ objectiveLines inst.objective ++ inst.constrs.map constrLine

/-- Writes an instance, under a comment if there are to be any. -/
def encode (comments : Bool) (inst : Instance) : Emit Unit := do
  if comments then
    Emit.line (header inst)
  (lines inst).forM fun line => Emit.line line.render

end LinearInterchange.Exchange
