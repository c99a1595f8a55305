import LinearInterchange.Number.Word

/-! # Coefficients

Coefficients and constants are exact rationals whose numerator and denominator, in lowest terms,
are 64-bit words. Multiplication is refused exactly when the product has no such form; addition
works over the common denominator and is refused as soon as a number of that computation leaves
the range, even where the reduced sum would be back in it. -/

namespace LinearInterchange

/-- The rational, in lowest terms, is a quotient of words. -/
def FitsCoeff (q : Rat) : Prop :=
  FitsWord q.num ∧ FitsWord q.den

instance (q : Rat) : Decidable (FitsCoeff q) :=
  inferInstanceAs (Decidable (_ ∧ _))

/-- An exact rational with numerator and denominator in the range of words. -/
structure Coeff where
  val : Rat
  fits : FitsCoeff val
  deriving DecidableEq

namespace Coeff

theorem ext {a b : Coeff} (h : a.val = b.val) : a = b := by
  cases a; cases b; cases h; rfl

/-- The coefficient with a given value, if the value is in range. -/
def ofRat? (q : Rat) : Option Coeff :=
  if h : FitsCoeff q then some ⟨q, h⟩ else none

theorem val_of_ofRat? {q : Rat} {c : Coeff} (h : ofRat? q = some c) : c.val = q := by
  unfold ofRat? at h
  split at h
  · rw [← Option.some.inj h]
  · cases h

@[simp] theorem ofRat?_val (c : Coeff) : ofRat? c.val = some c := by
  simp [ofRat?, c.fits]

theorem ofRat?_eq_none_iff {q : Rat} : ofRat? q = none ↔ ¬ FitsCoeff q := by
  unfold ofRat?
  split <;> simp_all

/-- A word as a coefficient. -/
def ofWord (w : Int64) : Coeff where
  val := (w.toInt : Rat)
  fits := ⟨fitsWord_toInt w, show FitsWord 1 by decide⟩

@[simp] theorem val_ofWord (w : Int64) : (ofWord w).val = (w.toInt : Rat) := rfl

instance : Zero Coeff := ⟨ofWord 0⟩
instance : One Coeff := ⟨ofWord 1⟩

@[simp] theorem val_zero : (0 : Coeff).val = 0 := by decide
@[simp] theorem val_one : (1 : Coeff).val = 1 := by decide

/-- The product, if it is in range. -/
def mul? (a b : Coeff) : Option Coeff :=
  ofRat? (a.val * b.val)

theorem val_of_mul? {a b c : Coeff} (h : mul? a b = some c) : c.val = a.val * b.val :=
  val_of_ofRat? h

/-- The least common multiple of two denominators, if it is in range. -/
def lcm? (a b : Nat) : Option Nat :=
  if FitsWord (a.lcm b) then some (a.lcm b) else none

/-- The sum over the common denominator stays in range: the denominator itself, both numerators
over it, and their sum. -/
def SumFits (a b : Coeff) : Prop :=
  let l := a.val.den.lcm b.val.den
  let m := l / a.val.den * a.val.num
  let n := l / b.val.den * b.val.num
  FitsWord l ∧ FitsWord m ∧ FitsWord n ∧ FitsWord (m + n)

instance (a b : Coeff) : Decidable (SumFits a b) :=
  inferInstanceAs (Decidable (_ ∧ _ ∧ _ ∧ _))

/-- The sum, if it can be computed over the common denominator without leaving the range. -/
def add? (a b : Coeff) : Option Coeff :=
  if SumFits a b then ofRat? (a.val + b.val) else none

theorem val_of_add? {a b c : Coeff} (h : add? a b = some c) : c.val = a.val + b.val := by
  unfold add? at h
  split at h
  · exact val_of_ofRat? h
  · cases h

/-- The coefficient with the sign changed. Only the least integer has no opposite in range; it
stays as it is. -/
def neg (a : Coeff) : Coeff :=
  (ofRat? (-a.val)).getD a

/-- The greatest integer that is at most the coefficient. -/
def floor (a : Coeff) : Int64 :=
  Int64.ofInt a.val.floor

/-- The least integer that is at least the coefficient. -/
def ceil (a : Coeff) : Int64 :=
  Int64.ofInt a.val.ceil

/-- The integer part of the coefficient; the fraction is cut off toward zero. -/
def truncate (a : Coeff) : Int64 :=
  Int64.ofInt (a.val.num.tdiv a.val.den)

/-- The coefficient has no fraction. -/
def isInteger (a : Coeff) : Bool :=
  a.val.den == 1

/-- The coefficient is below zero. -/
def isNegative (a : Coeff) : Bool :=
  decide (a.val.num < 0)

/-- The text of a coefficient: the numerator alone for an integer, else both numbers of the
fraction in lowest terms with the sign in front. -/
def toText (a : Coeff) : String :=
  if a.val.den = 1 then toString a.val.num
  else toString a.val.num ++ "/" ++ toString a.val.den

instance : ToString Coeff := ⟨toText⟩

end Coeff

end LinearInterchange
