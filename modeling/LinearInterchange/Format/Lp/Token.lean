import LinearInterchange.Constraint
import LinearInterchange.Number.Decimal
import LinearInterchange.Text.Quoted

/-! # Tokens of the LP format -/

namespace LinearInterchange.Lp

open Text

/-- A token. Numbers and identifiers keep their text. -/
inductive Token where
  | num (text : List Char)
  | ident (text : List Char)
  /-- A sign; the value tells whether it is a minus. -/
  | sign (minus : Bool)
  | rel (r : Relation)
  | colon
  deriving DecidableEq

namespace Token

/-- The name of a token in messages. -/
def describe : Token → String
  | num text => "Num(" ++ quoted (String.ofList text) ++ ")"
  | ident text => "Ident(" ++ quoted (String.ofList text) ++ ")"
  | sign minus => "Sign(" ++ toString minus ++ ")"
  | rel .le => "Rel(Le)"
  | rel .eq => "Rel(Eq)"
  | rel .ge => "Rel(Ge)"
  | colon => "Colon"

/-- Characters other than letters that may begin an identifier. -/
def marks : List Char :=
  "_!\"#$%&()/,;?@'\x7b\x7d|~".toList

/-- The character may begin an identifier. -/
def isIdentStart (c : Char) : Bool :=
  c.isAlpha || marks.contains c

/-- The character may continue an identifier. -/
def isIdentPart (c : Char) : Bool :=
  isIdentStart c || c.isDigit || c == '.'

open Parser

/-- Accepts one of several words, the first that fits. -/
def oneOf (words : List String) : Parser Unit :=
  words.foldr (fun w p => literal w.toList <|> p) failure

/-- Accepts one token. -/
def next : Parser Token :=
  (do oneOf ["<=", "=<", "<"]; return .rel .le)
  <|> (do oneOf [">=", "=>", ">"]; return .rel .ge)
  <|> (do char '='; return .rel .eq)
  <|> (do char '-'; return .sign true)
  <|> (do char '+'; return .sign false)
  <|> (do char ':'; return .colon)
  <|> (do return .num (← decimalToken))
  <|> (do return .ident ((← run1 isIdentStart) ++ (← run isIdentPart)))

/-- Splits a line into tokens with blanks and tabs between them. Where no token begins the text
that is left is returned as an error. -/
def scan (cs : List Char) : Except (List Char) (List Token) :=
  let body := cs.dropWhile isSpace
  if body = [] then .ok []
  else
    match next.parse body with
    | none => .error body
    | some (t, rest) =>
      if rest.length < body.length then (scan rest).map (t :: ·) else .error body
termination_by cs.length
decreasing_by
  have : body.length ≤ cs.length := (List.dropWhile_suffix _).length_le
  omega

end Token

end LinearInterchange.Lp
