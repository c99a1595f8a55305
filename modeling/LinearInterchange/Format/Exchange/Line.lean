import LinearInterchange.Number.Decimal
import LinearInterchange.Objective
import LinearInterchange.Constraint

/-! # Lines of the exchange format

The exchange format stores an instance without loss, a line for each of its parts:

```text
c comment
n <instance name>
v <id> <name> b [aux]
v <id> <name> i <lb> <ub> [aux]
o min|max|none [<coeff> <id>]*
k <=|=|>= <rhs> [<coeff> <id>]*
```

The parts of a line are separated by blanks or tabs; coefficients are integers or fractions. -/

namespace LinearInterchange.Exchange

open Text

/-- A weighted variable as written: the token of its coefficient and its id. -/
abbrev TermText := List Char × UInt32

/-- A line of the format. -/
inductive Line where
  | comment
  | name (name : List Char)
  /-- A variable with its bounds, or without them if it is Boolean. -/
  | var (id : UInt32) (name : List Char) (bounds : Option (Int64 × Int64)) (auxiliary : Bool)
  | objective (direction : Direction) (terms : List TermText)
  | constr (rel : Relation) (rhs : List Char) (terms : List TermText)
  deriving DecidableEq

namespace Line

open Parser

/-- One or more blanks, then what `p` accepts. -/
def spaced {α : Type} (p : Parser α) : Parser α := do
  spaces1
  p

/-- A coefficient and an id after blanks, as often as they follow. -/
def termTexts : Parser (List TermText) :=
  many (spaced do
    let coeff ← fractionToken
    let id ← spaced index
    return (coeff, id))

/-- The bounds of a variable: the letter `b` alone, or the letter `i` and two integers. -/
def domainText : Parser (Option (Int64 × Int64)) :=
  (do
    char 'b'
    return none)
  <|> (do
    char 'i'
    let lb ← spaced word
    let ub ← spaced word
    return some (lb, ub))

/-- The word for a direction. -/
def directionText : Parser Direction :=
  (do literal "min".toList; return .minimize)
  <|> (do literal "max".toList; return .maximize)
  <|> (do literal "none".toList; return .unspecified)

/-- The operator of a comparison. -/
def relationText : Parser Relation :=
  (do literal "<=".toList; return .le)
  <|> (do literal ">=".toList; return .ge)
  <|> (do literal "=".toList; return .eq)

/-- A comment: the letter `c`, then nothing or blanks and any text. -/
def commentLine : Parser Line := do
  char 'c'
  let _ ← optional? (spaced (run fun _ => true))
  return .comment

/-- The name of the instance, without white space at its ends. -/
def nameLine : Parser Line := do
  char 'n'
  let text ← spaced (run fun _ => true)
  return .name (trim text)

/-- A variable. Its name is free of white space. -/
def varLine : Parser Line := do
  char 'v'
  let id ← spaced index
  let name ← spaced (run1 fun c => !isBlank c)
  let bounds ← spaced domainText
  let aux ← optional? (spaced (literal "aux".toList))
  return .var id name bounds aux.isSome

/-- The objective. -/
def objectiveLine : Parser Line := do
  char 'o'
  let direction ← spaced directionText
  return .objective direction (← termTexts)

/-- A constraint. -/
def constrLine : Parser Line := do
  char 'k'
  let rel ← spaced relationText
  let rhs ← spaced fractionToken
  return .constr rel rhs (← termTexts)

/-- Reads a line that has no white space at its end. -/
def read? (cs : List Char) : Option Line :=
  parseWhole? (do
    let line ← commentLine <|> nameLine <|> varLine <|> objectiveLine <|> constrLine
    spaces
    return line) cs

/-- The text of weighted variables, each part with a blank in front. -/
def renderTerms (ts : List TermText) : String :=
  String.join (ts.map fun (coeff, id) => " " ++ String.ofList coeff ++ " " ++ toString id)

/-- The word for a direction. -/
def directionWord : Direction → String
  | .minimize => "min"
  | .maximize => "max"
  | .unspecified => "none"

/-- The text of a line that is no comment, without its end. -/
def render : Line → String
  | comment => "c"
  | name n => "n " ++ String.ofList n
  | var id n bounds aux =>
    "v " ++ toString id ++ " " ++ String.ofList n ++ " "
      ++ (match bounds with
        | none => "b"
        | some (lb, ub) => "i " ++ toString lb ++ " " ++ toString ub)
      ++ (if aux then " aux" else "")
  | objective d ts => "o " ++ directionWord d ++ renderTerms ts
  | constr rel rhs ts => "k " ++ rel.symbol ++ " " ++ String.ofList rhs ++ renderTerms ts

end Line

end LinearInterchange.Exchange
