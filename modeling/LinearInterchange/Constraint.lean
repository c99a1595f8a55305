import LinearInterchange.Term

/-! # Linear constraints

A constraint compares a sum of terms with a constant. -/

namespace LinearInterchange

/-- The comparisons of a constraint. -/
inductive Relation where
  | le
  | eq
  | ge
  deriving DecidableEq

namespace Relation

/-- The comparison holds between two coefficients. -/
def holds (r : Relation) (lhs rhs : Coeff) : Bool :=
  match r with
  | le => lhs.val ≤ rhs.val
  | eq => lhs.val == rhs.val
  | ge => rhs.val ≤ lhs.val

/-- The operator of the comparison. -/
def symbol : Relation → String
  | le => "<="
  | eq => "="
  | ge => ">="

instance : ToString Relation := ⟨symbol⟩

end Relation

/-- The comparison of a sum of terms with a right-hand side. -/
structure LinConstraint where
  terms : List Term
  rel : Relation
  rhs : Coeff
  deriving DecidableEq

/-- Why a constraint was not scaled. -/
inductive ScaleError where
  /-- The factor is zero or negative, which would not keep the relation. -/
  | notPositive
  /-- A product is out of range. -/
  | value (e : ValueError)
  deriving DecidableEq

namespace LinConstraint

/-- The terms with those of one variable summed up. -/
def merged (c : LinConstraint) : Except ValueError (List Term) :=
  Term.merge c.terms

/-- The number of variables that remain when terms are summed up. One term needs no sum. -/
def arity (c : LinConstraint) : Except ValueError Nat :=
  if c.terms.length ≤ 1 then .ok (c.terms.filter fun t => t.coeff ≠ 0).length
  else c.merged.map List.length

/-- All coefficients and the right-hand side are integers. -/
def isIntegral (c : LinConstraint) : Bool :=
  c.rhs.isInteger && Term.allIntegers c.terms

/-- Multiplies the constraint by a positive factor: the terms in order, then the right-hand side.
On an overflow what comes before the number at fault is multiplied already. -/
def scale (factor : Coeff) (c : LinConstraint) : LinConstraint × Except ScaleError Unit :=
  if factor.val ≤ 0 then (c, .error .notPositive)
  else
    match Term.scaleAll factor c.terms with
    | (terms, .error e) => ({ c with terms }, .error (.value e))
    | (terms, .ok ()) =>
      match c.rhs.mul factor with
      | .error e => ({ c with terms }, .error (.value e))
      | .ok rhs => ({ c with terms, rhs }, .ok ())

/-- The value of a sum of terms, starting from `sum`. There is none if a variable has no value or
the arithmetic leaves the range of coefficients. -/
def sumUnder? (value : Var → Option Int64) (sum : Coeff) : List Term → Option Coeff
  | [] => some sum
  | t :: ts => do
    let x ← value t.var
    let product ← Coeff.mul? t.coeff (.ofWord x)
    sumUnder? value (← Coeff.add? sum product) ts

/-- The truth of the constraint under a partial assignment, if it can be computed. -/
def evaluate (value : Var → Option Int64) (c : LinConstraint) : Option Bool :=
  (sumUnder? value 0 c.terms).map fun lhs => c.rel.holds lhs c.rhs

/-- The text of a constraint: the terms joined by plus signs, or `0`, then the comparison. -/
def toText (c : LinConstraint) : String :=
  let lhs := if c.terms.isEmpty then "0" else " + ".intercalate (c.terms.map Term.toText)
  lhs ++ " " ++ toString c.rel ++ " " ++ toString c.rhs

instance : ToString LinConstraint := ⟨toText⟩

end LinConstraint

end LinearInterchange
