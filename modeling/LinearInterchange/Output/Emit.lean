import LinearInterchange.Instance.Basic

/-! # Writing instances

A writer emits text piece by piece and may refuse the instance. The text that was emitted before a
refusal is kept, so that it can be said how much that is. -/

namespace LinearInterchange

/-- A limit of a format that an instance exceeds. Constraints are counted from one. -/
inductive Limit where
  /-- The terms of a constraint cannot be summed up. -/
  | sum (number : Nat) (e : ValueError)
  /-- A constraint has too many variables. -/
  | arity (number count greatest : Nat)
  | fractionalConstraint (number : Nat)
  | fractionalObjective
  /-- A variable name is no symbol of the Sugar language. -/
  | notASymbol (name : String)
  /-- The values of the objective leave the range of coefficients. -/
  | objectiveRange
  deriving DecidableEq

/-- The wording of a limit. -/
def Limit.message : Limit → String
  | .sum number e => "constraint " ++ toString number ++ ": " ++ e.message
  | .arity number count greatest =>
    "constraint " ++ toString number ++ " has arity " ++ toString count ++ ", at most "
      ++ toString greatest ++ " is supported"
  | .fractionalConstraint number =>
    "constraint " ++ toString number ++ " has fractional coefficients, enable normalization"
  | .fractionalObjective => "objective has fractional coefficients, enable normalization"
  | .notASymbol name => "variable name `" ++ name ++ "` is not a Sugar symbol"
  | .objectiveRange => "objective value range overflows"

/-- Why an instance was not written. -/
inductive WriteError where
  | limit (format : String) (exceeded : Limit)
  /-- The objective has terms but no direction, and the format has no default for it. -/
  | noDirection (format : String)
  /-- A term refers to a variable that is not declared. -/
  | undeclared (v : Var)
  deriving DecidableEq

/-- The wording of a refused instance. -/
def WriteError.message : WriteError → String
  | .limit format exceeded =>
    "instance is not representable in " ++ format ++ ": " ++ exceeded.message
  | .noDirection format =>
    "objective has no optimization direction and " ++ format ++ " has no default direction"
  | .undeclared v => (InstanceError.undeclared v).message

/-- A computation that emits text and may refuse. -/
abbrev Emit := ExceptT WriteError (StateM String)

namespace Emit

/-- Emits a piece of text. -/
def text (s : String) : Emit Unit :=
  modify (· ++ s)

/-- Emits a line. -/
def line (s : String) : Emit Unit :=
  text (s ++ "\n")

/-- Runs a writer from the empty text. Returns the text emitted and the outcome. -/
def output (e : Emit Unit) : Except WriteError Unit × String :=
  (e.run).run ""

end Emit

/-- The words of a text with a blank in front of each. -/
def spaced (ws : List String) : String :=
  String.join (ws.map fun w => " " ++ w)

end LinearInterchange
