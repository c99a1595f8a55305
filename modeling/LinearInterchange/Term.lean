import LinearInterchange.Number.Coeff
import LinearInterchange.Variable

/-! # Terms

A term is a variable with a coefficient. -/

namespace LinearInterchange

/-- The product of two coefficients; leaving the range is an overflow. -/
def Coeff.mul (a b : Coeff) : Except ValueError Coeff :=
  (Coeff.mul? a b).elim (.error .overflow) .ok

/-- The sum of two coefficients; leaving the range is an overflow. -/
def Coeff.add (a b : Coeff) : Except ValueError Coeff :=
  (Coeff.add? a b).elim (.error .overflow) .ok

/-- A weighted variable. -/
structure Term where
  coeff : Coeff
  var : Var
  deriving DecidableEq

namespace Term

/-- The least and the greatest value of the term over a domain. -/
def valueRange (t : Term) (d : Domain) : Except ValueError (Coeff × Coeff) := do
  let atLeast ← t.coeff.mul (.ofWord d.least)
  let atGreatest ← t.coeff.mul (.ofWord d.greatest)
  return if t.coeff.isNegative then (atGreatest, atLeast) else (atLeast, atGreatest)

/-- The text of a term; the coefficient 1 is left out. -/
def toText (t : Term) : String :=
  if t.coeff = 1 then toString t.var else toString t.coeff ++ " " ++ toString t.var

instance : ToString Term := ⟨toText⟩

/-- The variables of the terms, each once, in the order in which they first appear. -/
def varsOf (ts : List Term) : List Var :=
  ts.foldl (fun vs t => if t.var ∈ vs then vs else vs ++ [t.var]) []

/-- The sum of the coefficients that the terms give to a variable, added in order. -/
def coeffOf (v : Var) (ts : List Term) : Except ValueError Coeff :=
  (ts.filter fun t => t.var = v).foldlM (fun sum t => sum.add t.coeff) 0

/-- One term for each variable, with the sum of its coefficients, in the order in which the
variables first appear. Variables whose coefficients cancel out are left out. -/
def merge (ts : List Term) : Except ValueError (List Term) := do
  let sums ← (varsOf ts).mapM fun v => return (⟨← coeffOf v ts, v⟩ : Term)
  return sums.filter fun t => t.coeff ≠ 0

/-- All coefficients are integers. -/
def allIntegers (ts : List Term) : Bool :=
  ts.all (·.coeff.isInteger)

/-- Multiplies the coefficients in order. On an overflow the terms before the one at fault are
multiplied already. -/
def scaleAll (factor : Coeff) : List Term → List Term × Except ValueError Unit
  | [] => ([], .ok ())
  | t :: ts =>
    match t.coeff.mul factor with
    | .error e => (t :: ts, .error e)
    | .ok c =>
      let (rest, outcome) := scaleAll factor ts
      ({ t with coeff := c } :: rest, outcome)

end Term

end LinearInterchange
