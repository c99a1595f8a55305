import LinearInterchange.Number.Word

/-! # Integers written in text

Reading a whole text as an integer of a bounded range. The characters are inspected from the left
and the first problem decides which fault is reported. -/

namespace LinearInterchange.Text

/-- What keeps a text from being an integer of a range. -/
inductive IntegerFault where
  /-- There are no characters. -/
  | empty
  /-- A character is no digit, or there is nothing but a sign. -/
  | invalidDigit
  /-- The digits read so far are above the range. -/
  | tooLarge
  /-- The digits read so far are below the range. -/
  | tooSmall
  deriving DecidableEq

/-- The wording of a fault. -/
def IntegerFault.message : IntegerFault → String
  | .empty => "cannot parse integer from empty string"
  | .invalidDigit => "invalid digit found in string"
  | .tooLarge => "number too large to fit in target type"
  | .tooSmall => "number too small to fit in target type"

/-- A range of integers with both ends included, and whether its texts may have a minus sign. -/
structure IntegerRange where
  least : Int
  greatest : Int
  hasMinus : Bool

/-- The range of 64-bit words. -/
def IntegerRange.word : IntegerRange := ⟨-9223372036854775808, 9223372036854775807, true⟩

/-- The range of 32-bit words with a sign. -/
def IntegerRange.half : IntegerRange := ⟨-2147483648, 2147483647, true⟩

/-- The range of 32-bit words without a sign. -/
def IntegerRange.index : IntegerRange := ⟨0, 4294967295, false⟩

/-- The range of 64-bit words without a sign. -/
def IntegerRange.natural : IntegerRange := ⟨0, 18446744073709551615, false⟩

/-- The value of a decimal digit. -/
def digit? (c : Char) : Option Nat :=
  if c.isDigit then some (c.toNat - '0'.toNat) else none

/-- Appends digits to the integer `n`, away from zero, as long as the range is not left. -/
def appendDigits (range : IntegerRange) (negative : Bool) (n : Int) :
    List Char → Except IntegerFault Int
  | [] => .ok n
  | c :: cs =>
    match digit? c with
    | none => .error .invalidDigit
    | some d =>
      let m := if negative then 10 * n - d else 10 * n + d
      if m > range.greatest then .error .tooLarge
      else if m < range.least then .error .tooSmall
      else appendDigits range negative m cs

/-- Reads a whole text as an integer: an optional sign, then decimal digits. A plus sign is
always allowed, a minus sign only where the range admits it. -/
def readInteger (range : IntegerRange) : List Char → Except IntegerFault Int
  | [] => .error .empty
  | ['+'] => .error .invalidDigit
  | '+' :: cs => appendDigits range false 0 cs
  | '-' :: cs =>
    if range.hasMinus && !cs.isEmpty then appendDigits range true 0 cs else .error .invalidDigit
  | cs => appendDigits range false 0 cs

/-- Reads a whole text as a 64-bit word. -/
def readWord (cs : List Char) : Except IntegerFault Int64 :=
  (readInteger .word cs).map Int64.ofInt

/-- Reads a whole text as a 32-bit word without a sign. -/
def readIndex (cs : List Char) : Except IntegerFault UInt32 :=
  (readInteger .index cs).map fun n => UInt32.ofNat n.toNat

/-- Reads a whole text as a 64-bit word without a sign. -/
def readNatural (cs : List Char) : Except IntegerFault Nat :=
  (readInteger .natural cs).map Int.toNat

end LinearInterchange.Text
