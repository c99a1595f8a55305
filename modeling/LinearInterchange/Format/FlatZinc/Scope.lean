import LinearInterchange.Format.FlatZinc.Item
import LinearInterchange.Instance.Basic
import LinearInterchange.Input.Position
import LinearInterchange.KeyMap

/-! # Names in FlatZinc models

Names stand for parameters, arrays of parameters, variables and arrays of variables or constants.
A linear constraint moves constants among its operands to the right-hand side, and a variable on
the right-hand side to the left. -/

namespace LinearInterchange.FlatZinc

/-- What the reader refuses. -/
inductive Fault where
  | item (e : ItemFault)
  | unterminated
  | afterGoal
  | noGoal
  | notAParameter (name : String)
  | notAParameterArray (name : String)
  | noNumber
  | noArray
  | arrayForParameter
  | overflow
  | wrongLengths (coeffs operands : Nat)
  | badValue (e : ValueError)
  | badVariable (e : InstanceError)
  | unbounded (name : String)
  | badType (text : List Char)
  | badConstraint (name : String)
  | wrongArguments (name : String)
  | constantObjective

/-- The wording of a fault. -/
def Fault.refusal : Fault → Refusal
  | .item (.unsupported keyword) => .unsupported ("`" ++ String.ofList keyword ++ "` item")
  | .item (.unknown text) => .malformed ("unknown item `" ++ String.ofList text ++ "`")
  | .item (.invalid keyword) => .malformed ("invalid " ++ String.ofList keyword ++ " item")
  | .unterminated => .malformed "item is not terminated by `;`"
  | .afterGoal => .malformed "item after the solve item"
  | .noGoal => .malformed "missing solve item"
  | .notAParameter name => .malformed ("`" ++ name ++ "` is not a parameter")
  | .notAParameterArray name => .malformed ("`" ++ name ++ "` is not a parameter array")
  | .noNumber => .malformed "expected a number"
  | .noArray => .malformed "expected an array"
  | .arrayForParameter => .malformed "array value for scalar parameter"
  | .overflow => .unsupported "integer overflow in constraint"
  | .wrongLengths coeffs operands =>
    .malformed (toString coeffs ++ " coefficients for " ++ toString operands ++ " variables")
  | .badValue e => .malformed e.message
  | .badVariable e => .malformed e.message
  | .unbounded name =>
    .unsupported ("unbounded variable `" ++ name ++ "` and no `default_ub` is set")
  | .badType text => .unsupported ("variable type `" ++ String.ofList text ++ "`")
  | .badConstraint name => .unsupported ("constraint `" ++ name ++ "`")
  | .wrongArguments name => .malformed ("`" ++ name ++ "` expects three arguments")
  | .constantObjective => .unsupported "constant objective"

/-- A variable or a constant. -/
inductive Operand where
  | var (v : Var)
  | const (n : Int64)

/-- The names declared so far, apart from variables. -/
structure Scope where
  params : KeyMap Int64 := .empty
  paramArrays : KeyMap (List Int64) := .empty
  varArrays : KeyMap (List Operand) := .empty

namespace Scope

/-- The number that an expression stands for; truth values are 0 and 1. -/
def number (s : Scope) : Expr → Except Fault Int64
  | .int n => .ok n
  | .bool b => .ok (if b then 1 else 0)
  | .ident name =>
    (s.params.get? (String.ofList name)).elim (.error (.notAParameter (String.ofList name))) .ok
  | .array _ => .error .noNumber

/-- The numbers that an array stands for. -/
def numbers (s : Scope) : Expr → Except Fault (List Int64)
  | .array es => es.mapM s.number
  | .ident name =>
    (s.paramArrays.get? (String.ofList name)).elim
      (.error (.notAParameterArray (String.ofList name))) .ok
  | _ => .error .noArray

/-- The variable or the number that an expression stands for. A variable goes first. -/
def operand (s : Scope) (inst : Instance) (e : Expr) : Except Fault Operand :=
  let named? :=
    match e with
    | .ident name => inst.varNamed? (String.ofList name)
    | _ => none
  match named? with
  | some v => .ok (.var v)
  | none => (s.number e).map .const

/-- The variables and numbers that an array stands for. -/
def operands (s : Scope) (inst : Instance) : Expr → Except Fault (List Operand)
  | .array es => es.mapM (s.operand inst)
  | .ident name =>
    match s.varArrays.get? (String.ofList name) with
    | some ops => .ok ops
    | none => (s.numbers (.ident name)).map (·.map .const)
  | _ => .error .noArray

end Scope

/-- A word, or an overflow if the number is out of range. -/
def checkedWord (n : Int) : Except Fault Int64 :=
  (word? n).elim (.error .overflow) .ok

/-- The terms of a sum of operands, and the bound `bound` less its constant part. -/
def moveConstants (bound : Int64) : List (Int64 × Operand) → Except Fault (List Term × Int64)
  | [] => .ok ([], bound)
  | (c, .var v) :: rest => do
    let (terms, bound) ← moveConstants bound rest
    return (⟨.ofWord c, v⟩ :: terms, bound)
  | (c, .const k) :: rest => do
    let product ← checkedWord (c.toInt * k.toInt)
    moveConstants (← checkedWord (bound.toInt - product.toInt)) rest

/-- The constraint that a weighted sum of operands compares with another operand. -/
def linear (coeffs : List Int64) (ops : List Operand) (rel : Relation) (rhs : Operand) :
    Except Fault LinConstraint := do
  if coeffs.length ≠ ops.length then .error (.wrongLengths coeffs.length ops.length)
  else
    let (terms, bound) ← moveConstants 0 (coeffs.zip ops)
    match rhs with
    | .var v => return ⟨terms ++ [⟨.ofWord (-1), v⟩], rel, .ofWord bound⟩
    | .const k => return ⟨terms, rel, .ofWord (← checkedWord (bound.toInt + k.toInt))⟩

end LinearInterchange.FlatZinc
