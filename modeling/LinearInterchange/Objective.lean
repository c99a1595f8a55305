import LinearInterchange.Term
import LinearInterchange.Text.Blank

/-! # Objectives

An objective is a sum of terms together with the direction in which it is optimised. -/

namespace LinearInterchange

/-- The direction of optimisation. -/
inductive Direction where
  | minimize
  | maximize
  /-- The input does not say. -/
  | unspecified
  deriving DecidableEq

namespace Direction

/-- The direction is known. -/
def isSpecified : Direction → Bool
  | unspecified => false
  | _ => true

/-- The word for a direction. -/
def keyword : Direction → String
  | minimize => "minimize"
  | maximize => "maximize"
  | unspecified => "unspecified"

instance : ToString Direction := ⟨keyword⟩

/-- A text that names no direction. -/
structure Invalid where
  text : String
  deriving DecidableEq

/-- The wording of the refusal. -/
def Invalid.message (e : Invalid) : String :=
  "invalid optimization strategy `" ++ e.text ++ "`, expected `minimize` or `maximize`"

/-- Reads a direction, in long or short form, in any case and with white space around it. -/
def read (s : String) : Except Invalid Direction :=
  let word := Text.lower (Text.trim s.toList)
  if word = "minimize".toList || word = "min".toList then .ok minimize
  else if word = "maximize".toList || word = "max".toList then .ok maximize
  else .error ⟨s⟩

end Direction

/-- A sum of terms with a direction. Without terms there is nothing to optimise. -/
structure Objective where
  direction : Direction := .unspecified
  terms : List Term := []
  deriving DecidableEq

namespace Objective

/-- All coefficients are integers. -/
def isIntegral (o : Objective) : Bool :=
  Term.allIntegers o.terms

/-- Multiplies the coefficients in order. On an overflow the terms before the one at fault are
multiplied already. -/
def scale (factor : Coeff) (o : Objective) : Objective × Except ValueError Unit :=
  let (terms, outcome) := Term.scaleAll factor o.terms
  ({ o with terms }, outcome)

/-- The text of an objective: the direction, a colon and the terms. -/
def toText (o : Objective) : String :=
  toString o.direction ++ ":" ++ String.join (o.terms.map fun t => " " ++ toString t)

instance : ToString Objective := ⟨toText⟩

end Objective

end LinearInterchange
