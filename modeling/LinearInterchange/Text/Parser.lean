import LinearInterchange.Number.Word

/-! # Small parsers

A parser takes a text and returns a value and the text that it leaves, or nothing if it does not
apply. Alternatives are ordered: the first one that applies is taken and never revisited. -/

namespace LinearInterchange.Text

/-- A parser of values of type `α`. -/
abbrev Parser (α : Type) := StateT (List Char) Option α

namespace Parser

/-- Applies the parser to a text and keeps what it leaves. -/
def parse {α : Type} (p : Parser α) (cs : List Char) : Option (α × List Char) :=
  p.run cs

/-- The value of the parser if it leaves nothing of the text. -/
def parseWhole? {α : Type} (p : Parser α) (cs : List Char) : Option α :=
  match p.parse cs with
  | some (a, []) => some a
  | _ => none

/-- Accepts one character of a class. -/
def satisfy (p : Char → Bool) : Parser Char
  | [] => none
  | c :: cs => if p c then some (c, cs) else none

/-- Accepts one given character. -/
def char (c : Char) : Parser Unit :=
  (fun _ => ()) <$> satisfy (· == c)

/-- Accepts a given word, letter by letter. -/
def literal : List Char → Parser Unit
  | [] => pure ()
  | c :: w => do
    char c
    literal w

/-- Accepts the longest run of characters of a class, which may be empty. -/
def run (p : Char → Bool) : Parser (List Char) :=
  fun cs => some (cs.takeWhile p, cs.dropWhile p)

/-- Accepts the longest run of characters of a class, at least one. -/
def run1 (p : Char → Bool) : Parser (List Char) :=
  fun cs => if (cs.takeWhile p).isEmpty then none else some (cs.takeWhile p, cs.dropWhile p)

/-- The value of the parser if it applies; otherwise nothing is consumed. -/
def optional? {α : Type} (p : Parser α) : Parser (Option α) :=
  fun cs =>
    match p cs with
    | some (a, rest) => some (some a, rest)
    | none => some (none, cs)

/-- Applies a parser as often as it applies and consumes something. -/
def many {α : Type} (p : Parser α) : Parser (List α) :=
  fun cs => some (go cs)
where
  /-- The values read and the text that is left. -/
  go (cs : List Char) : List α × List Char :=
    match p cs with
    | none => ([], cs)
    | some (a, rest) =>
      if rest.length < cs.length then
        (a :: (go rest).1, (go rest).2)
      else ([], cs)
  termination_by cs.length

/-- Values with a separator between them, perhaps none. A separator without a value after it is
not consumed. -/
def sepBy {α : Type} (separator : Parser Unit) (p : Parser α) : Parser (List α) := do
  match ← optional? p with
  | none => return []
  | some a =>
    let rest ← many (do
      separator
      p)
    return a :: rest

/-- The text that a parser accepts, whatever its value. -/
def accepted {α : Type} (p : Parser α) : Parser (List Char) :=
  fun cs => (p cs).map fun (_, rest) => (cs.take (cs.length - rest.length), rest)

/-- A blank or a tab. -/
def isSpace (c : Char) : Bool :=
  c == ' ' || c == '\t'

/-- A blank, a tab or a character that ends a line. -/
def isLayout (c : Char) : Bool :=
  c == ' ' || c == '\t' || c == '\r' || c == '\n'

/-- Blanks and tabs, perhaps none. -/
def spaces : Parser Unit :=
  (fun _ => ()) <$> run isSpace

/-- At least one blank or tab. -/
def spaces1 : Parser Unit :=
  (fun _ => ()) <$> run1 isSpace

/-- Blanks, tabs and line ends, perhaps none. -/
def layout : Parser Unit :=
  (fun _ => ()) <$> run isLayout

/-- At least one blank, tab or line end. -/
def layout1 : Parser Unit :=
  (fun _ => ()) <$> run1 isLayout

/-- A parser between optional layout. -/
def padded {α : Type} (p : Parser α) : Parser α := do
  layout
  let a ← p
  layout
  return a

/-- Decimal digits, at least one. -/
def digits1 : Parser (List Char) :=
  run1 Char.isDigit

/-- The number that a list of decimal digits denotes. -/
def valueOf (ds : List Char) : Nat :=
  ds.foldl (fun n d => 10 * n + (d.toNat - '0'.toNat)) 0

/-- A sign, if there is one; the value tells whether it is a minus. -/
def sign : Parser Bool := do
  let s ← optional? (satisfy fun c => c == '+' || c == '-')
  return s == some '-'

/-- An optionally signed decimal integer in the range of 64-bit words. -/
def word : Parser Int64 := do
  let neg ← sign
  let n : Int := valueOf (← digits1)
  match word? (if neg then -n else n) with
  | some w => return w
  | none => failure

/-- An unsigned decimal integer in the range of 32-bit words. -/
def index : Parser UInt32 := do
  let n := valueOf (← digits1)
  if n < UInt32.size then return UInt32.ofNat n else failure

end Parser

end LinearInterchange.Text
