import LinearInterchange.Input.Position
import LinearInterchange.Objective
import LinearInterchange.Text.Parser
import LinearInterchange.Text.Blank

/-! # Items of FlatZinc models

A model is a list of items: parameters, variables, arrays, constraints and a goal. Annotations
after names, after constraints and within the goal are skipped. -/

namespace LinearInterchange.FlatZinc

open Text Text.Parser

/-- An expression. -/
inductive Expr where
  | bool (b : Bool)
  | int (n : Int64)
  | ident (name : List Char)
  | array (elements : List Expr)

/-- The type of a variable. -/
inductive VarType where
  | bool
  | int
  | range (least greatest : Int64)
  /-- A type of another kind, as written. -/
  | other (text : List Char)

/-- What the solver is asked for. -/
inductive Goal where
  | satisfy
  | optimize (direction : Direction) (objective : Expr)

/-- An item. -/
inductive Item where
  | param (name : List Char) (value : Expr)
  | var (type : VarType) (name : List Char) (value : Option Expr)
  | array (ofVars : Bool) (name : List Char) (value : Expr)
  | constr (name : List Char) (args : List Expr)
  | solve (goal : Goal)

/-- A letter or an underscore. -/
def isIdentStart (c : Char) : Bool :=
  c.isAlpha || c == '_'

/-- A letter, a digit or an underscore. -/
def isIdentPart (c : Char) : Bool :=
  c.isAlphanum || c == '_'

/-- An identifier. -/
def ident : Parser (List Char) := do
  return (← run1 isIdentStart) ++ (← run isIdentPart)

/-- The expression that an identifier stands for: two of them are truth values. -/
def Expr.ofIdent (name : List Char) : Expr :=
  if name = "true".toList then .bool true
  else if name = "false".toList then .bool false
  else .ident name

/-- An expression with arrays nested less deep than `depth`. -/
def exprWithin : Nat → Parser Expr
  | 0 => failure
  | depth + 1 =>
    (do
      char '['
      let elements ← sepBy (char ',') (padded (exprWithin depth))
      layout
      char ']'
      return .array elements)
    <|> (do return .int (← word))
    <|> (do return .ofIdent (← ident))

/-- An expression. No text nests arrays deeper than it is long. -/
def expr : Parser Expr :=
  fun cs => exprWithin (cs.length + 1) cs

/-- The text after a closing bracket that brings the number of open brackets, now `depth`, to
zero, if there is such a bracket. -/
def afterBrackets (depth : Nat) : List Char → Except Assumption (Option (List Char))
  | [] => .ok none
  | c :: cs =>
    if c = '(' ∨ c = '[' then afterBrackets (depth + 1) cs
    else if c = ')' ∨ c = ']' then
      match depth with
      | 0 => .error .bracket
      | 1 => .ok (some cs)
      | depth + 2 => afterBrackets (depth + 1) cs
    else afterBrackets depth cs

/-- Arguments in balanced brackets, if there are any. -/
def skipArgs : Parser Unit :=
  fun cs =>
    let args := cs.dropWhile isLayout
    if args.head? = some '(' then
      match afterBrackets 0 args with
      | .ok (some rest) => some ((), rest)
      | _ => none
    else some ((), cs)

/-- An annotation: two colons, a name, and arguments that may be left out. -/
def annotation : Parser Unit := do
  layout
  literal "::".toList
  layout
  let _ ← ident
  skipArgs

/-- The text begins with two colons, perhaps after layout. -/
def annotated (cs : List Char) : Bool :=
  "::".toList.isPrefixOf (cs.dropWhile isLayout)

/-- Any number of annotations. What begins like an annotation has to be one. -/
def annotations : Parser Unit := do
  let _ ← many annotation
  fun cs => if annotated cs then none else some ((), cs)

/-- A range of integers. -/
def range : Parser (Int64 × Int64) := do
  let lb ← word
  padded (literal "..".toList)
  let ub ← word
  return (lb, ub)

/-- The type of a variable. -/
def varType : Parser VarType :=
  (do
    literal "bool".toList
    layout
    return .bool)
  <|> (do
    literal "int".toList
    layout
    return .int)
  <|> (do
    let (lb, ub) ← padded range
    return .range lb ub)
  <|> (do return .other (trim (← run1 (· != ':'))))

/-- A value after an equals sign. -/
def assigned : Parser Expr := do
  padded (char '=')
  expr

/-- A variable: `var type: name`, perhaps with a value. -/
def varItem : Parser Item := do
  literal "var".toList
  layout1
  let type ← varType
  padded (char ':')
  let name ← ident
  annotations
  return .var type name (← optional? assigned)

/-- An array: `array [range] of type: name = value`. -/
def arrayItem : Parser Item := do
  literal "array".toList
  padded (char '[')
  let _ ← range
  padded (char ']')
  literal "of".toList
  layout1
  let ofVars ← optional? (do
    literal "var".toList
    layout1)
  let _ ← run1 (· != ':')
  char ':'
  let name ← padded ident
  annotations
  return .array ofVars.isSome name (← assigned)

/-- A parameter: `type: name = value`. -/
def paramItem : Parser Item := do
  literal "int".toList <|> literal "bool".toList
  padded (char ':')
  let name ← ident
  annotations
  return .param name (← assigned)

/-- A constraint: `constraint name(arguments)`. -/
def constrItem : Parser Item := do
  literal "constraint".toList
  layout1
  let name ← ident
  padded (char '(')
  let args ← sepBy (char ',') (padded expr)
  char ')'
  annotations
  return .constr name args

/-- The direction of a goal. -/
def goalDirection : Parser Direction :=
  (do literal "minimize".toList; return .minimize)
  <|> (do literal "maximize".toList; return .maximize)

/-- The goal: `solve satisfy`, or an objective to minimise or to maximise. -/
def solveItem : Parser Item := do
  literal "solve".toList
  annotations
  layout
  (do
    literal "satisfy".toList
    return .solve .satisfy)
  <|> (do
    let direction ← goalDirection
    layout1
    return .solve (.optimize direction (← expr)))

/-- Why a text is no item. -/
inductive ItemFault where
  /-- Items of this kind are not supported. -/
  | unsupported (keyword : List Char)
  | unknown (text : List Char)
  | invalid (keyword : List Char)

/-- Reads a whole text, free of white space at its ends, as an item of the kind that its keyword
announces. -/
def Item.read (cs : List Char) : Except ItemFault Item :=
  let keyword := (ident.parse cs).elim [] (·.1)
  let readWith (p : Parser Item) : Except ItemFault Item :=
    (parseWhole? (do
      let item ← p
      layout
      return item) cs).elim (.error (.invalid keyword)) .ok
  match String.ofList keyword with
  | "var" => readWith varItem
  | "array" => readWith arrayItem
  | "int" | "bool" => readWith paramItem
  | "constraint" => readWith constrItem
  | "solve" => readWith solveItem
  | "predicate" | "set" | "float" => .error (.unsupported keyword)
  | _ => .error (.unknown cs)

end LinearInterchange.FlatZinc
