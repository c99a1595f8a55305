import LinearInterchange.Number.Coeff
import LinearInterchange.Text.Blank
import LinearInterchange.Text.IntegerText
import LinearInterchange.Text.Parser

/-! # Number tokens

Coefficients are written as integers, as fractions of two integers, or as decimals with an
optional fractional part and an optional power of ten. Nothing is rounded, and numbers that are no
coefficients are refused. Two steps on the way are not refused when they leave their words: the
length of the fraction is subtracted from the exponent in 32 bits, and the sign of a denominator is
moved to the numerator in 64 bits. There a checked build stops; an unchecked one goes on with what
is left of the result in the word. -/

namespace LinearInterchange

open Text

/-- What keeps a token from being a coefficient. -/
inductive NumberFault where
  /-- The token is no number. -/
  | invalid
  /-- The number has no place among the coefficients. -/
  | outOfRange
  deriving DecidableEq

/-- The parts of a decimal number as written: `whole.fraction` times a power of ten. -/
structure Decimal where
  negative : Bool
  whole : List Char
  fraction : List Char
  exponent : Int
  deriving DecidableEq

namespace Decimal

/-- The digits of both parts as one integer. -/
def digits (d : Decimal) : Nat :=
  Parser.valueOf (d.whole ++ d.fraction)

/-- The power of ten by which the integer of all digits is multiplied, as an integer of any size. -/
def scale (d : Decimal) : Int :=
  d.exponent - d.fraction.length

/-- The power of ten as it is computed, in 32 bits. -/
def wordScale (d : Decimal) : Int32 :=
  Int32.ofInt d.exponent - Int32.ofInt d.fraction.length

/-- The integer of all digits with the sign of the number. -/
def signed (d : Decimal) : Int :=
  if d.negative then -d.digits else d.digits

/-- The number that is written. -/
def value (d : Decimal) : Rat :=
  d.signed * (10 : Rat) ^ d.scale

/-- The number that is computed for the decimal, with the power of ten of 32 bits. -/
def wordValue (d : Decimal) : Rat :=
  d.signed * (10 : Rat) ^ d.wordScale.toInt

/-- Reads an exponent: an optional sign and decimal digits, of any length. -/
def readExponent? (cs : List Char) : Option Int :=
  Parser.parseWhole? (α := Int) (do
    let neg ← Parser.sign
    let n : Int := Parser.valueOf (← Parser.digits1)
    return if neg then -n else n) cs

/-- Reads a mantissa: an optional sign, then digits with at most one point among them. -/
def readMantissa? (exponent : Int) (cs : List Char) : Option Decimal :=
  let (negative, body) :=
    match cs with
    | '-' :: rest => (true, rest)
    | '+' :: rest => (false, rest)
    | _ => (false, cs)
  let (whole, fraction) := (splitFirst (· == '.') body).getD (body, [])
  if (whole ++ fraction).isEmpty || !(whole ++ fraction).all Char.isDigit then none
  else some ⟨negative, whole, fraction, exponent⟩

/-- Reads a whole text as a decimal number. -/
def read? (cs : List Char) : Option Decimal :=
  match splitFirst (fun c => c == 'e' || c == 'E') cs with
  | some (mantissa, e) => do readMantissa? (← readExponent? e) mantissa
  | none => readMantissa? 0 cs

/-- The exponent is a 32-bit word. -/
def hasShortExponent (d : Decimal) : Bool :=
  IntegerRange.half.least ≤ d.exponent && d.exponent ≤ IntegerRange.half.greatest

/-- The digits of the decimal are a word, and the length of its fraction is a 32-bit word. -/
def countable (d : Decimal) : Bool :=
  d.digits < 9223372036854775808 && d.fraction.length ≤ IntegerRange.half.greatest

/-- The coefficient with the digits of the decimal and the power of ten that is computed for it.
Refused are more digits than a word holds, also where the fraction ends in zeros, fractions whose
length is no 32-bit word, powers of ten beyond a word, and products beyond a word. -/
def toCoeff (d : Decimal) : Except NumberFault Coeff :=
  if !d.countable then .error .outOfRange
  else if d.digits = 0 then .ok 0
  else if 18 < d.wordScale.toInt.natAbs then .error .outOfRange
  else
    match Coeff.ofRat? d.wordValue with
    | some c => .ok c
    | none => .error .outOfRange

/-- The power of ten is computed and leaves the 32-bit words. It can only do so downwards. -/
def overflows (d : Decimal) : Bool :=
  d.countable && d.scale < IntegerRange.half.least

/-- The magnitude of the decimal is at least the positive number `bound`. The places before the
point are compared first, so that no power of ten is computed that the comparison can do without. -/
def magnitudeAtLeast (bound : Nat) (d : Decimal) : Bool :=
  let places : Int := (Nat.toDigits 10 d.digits).length + d.scale
  let boundPlaces : Int := (Nat.toDigits 10 bound).length
  if d.digits = 0 then false
  else if places < boundPlaces then false
  else if boundPlaces < places then true
  else if 0 ≤ d.scale then bound ≤ d.digits * Nat.pow 10 d.scale.toNat
  else bound * Nat.pow 10 (-d.scale).toNat ≤ d.digits

end Decimal

/-- Accepts a decimal number: digits with at most one point, an optional sign before them and an
optional power of ten after them. -/
def decimalToken : Parser (List Char) :=
  Parser.accepted do
    let _ ← Parser.sign
    (do let _ ← Parser.digits1
        let _ ← Parser.optional? (do
          Parser.char '.'
          Parser.run Char.isDigit))
      <|> (do
        Parser.char '.'
        let _ ← Parser.digits1)
    let _ ← Parser.optional? (do
      let _ ← Parser.satisfy fun c => c == 'e' || c == 'E'
      let _ ← Parser.sign
      Parser.digits1)

/-- Accepts an integer or a fraction of integers, with an optional sign in front. -/
def fractionToken : Parser (List Char) :=
  Parser.accepted do
    let _ ← Parser.sign
    let _ ← Parser.digits1
    let _ ← Parser.optional? (do
      Parser.char '/'
      Parser.digits1)

/-- How a program deals with arithmetic that leaves its words where nothing refuses this. -/
inductive Build where
  /-- It goes on with what is left of the result in the word. -/
  | unchecked
  /-- It stops. -/
  | checked
  deriving DecidableEq

namespace Coeff

/-- The quotient of two words by a denominator other than zero. The sign of the denominator is moved
to the numerator, and the least word stays as it is where its sign would change. As a denominator
the least word then keeps its sign, and what comes of it is no coefficient; it is refused here. -/
def quotient (p q : Int64) : Except NumberFault Coeff :=
  match ofRat? (Rat.divInt p.toInt q.toInt) <|> ofRat? (Rat.divInt p.toInt (-q.toInt)) with
  | some c => .ok c
  | none => .error .outOfRange

/-- Reads a fraction from the texts of its numerator and its denominator, both words. -/
def readFraction (num den : List Char) : Except NumberFault Coeff :=
  match readWord num, readWord den with
  | .ok p, .ok q => if q = 0 then .error .invalid else quotient p q
  | _, _ => .error .invalid

/-- The sign of a denominator is moved and leaves the words. -/
def fractionOverflows (num den : List Char) : Bool :=
  match readWord num, readWord den with
  | .ok p, .ok q => q ≠ 0 && (ofRat? (Rat.divInt p.toInt q.toInt)).isNone
  | _, _ => false

/-- Reads a decimal. An exponent has to be a 32-bit word. -/
def readDecimal (cs : List Char) : Except NumberFault Coeff :=
  match Decimal.read? cs with
  | some d => if d.hasShortExponent then d.toCoeff else .error .invalid
  | none => .error .invalid

/-- Reads a whole token as a coefficient, a fraction if it holds a slash and else a decimal, with
unchecked arithmetic. -/
def read (cs : List Char) : Except NumberFault Coeff :=
  match splitFirst (· == '/') cs with
  | some (num, den) => readFraction num den
  | none => readDecimal cs

/-- The arithmetic for a token leaves its words where nothing refuses this. -/
def overflows (cs : List Char) : Bool :=
  match splitFirst (· == '/') cs with
  | some (num, den) => fractionOverflows num den
  | none => (Decimal.read? cs).any fun d => d.hasShortExponent && d.overflows

/-- Reads a whole token in a build; there is no answer if the build stops. -/
def readIn (b : Build) (cs : List Char) : Option (Except NumberFault Coeff) :=
  if b = .checked ∧ overflows cs then none else some (read cs)

end Coeff

end LinearInterchange
