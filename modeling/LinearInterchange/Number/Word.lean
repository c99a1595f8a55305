/-! # The 64-bit range

Numbers of an instance live in the range of 64-bit words; arithmetic that leaves it is refused
rather than wrapped. -/

namespace LinearInterchange

/-- The integer is the value of some 64-bit word. -/
def FitsWord (n : Int) : Prop :=
  -9223372036854775808 ≤ n ∧ n ≤ 9223372036854775807

instance (n : Int) : Decidable (FitsWord n) :=
  inferInstanceAs (Decidable (_ ∧ _))

theorem fitsWord_toInt (w : Int64) : FitsWord w.toInt :=
  ⟨w.le_toInt, Int.le_of_lt_add_one w.toInt_lt⟩

/-- A quotient by a positive divisor is not farther from zero than its dividend. -/
theorem fitsWord_tdiv {n d : Int} (hn : FitsWord n) (hd : 0 < d) : FitsWord (n.tdiv d) := by
  unfold FitsWord at *
  rcases Int.le_total 0 n with h | h
  · have := Int.tdiv_le_self d h
    have := Int.tdiv_nonneg h (Int.le_of_lt hd)
    omega
  · have := Int.tdiv_le_self d (Int.neg_nonneg_of_nonpos h)
    have := Int.tdiv_nonneg (Int.neg_nonneg_of_nonpos h) (Int.le_of_lt hd)
    rw [Int.neg_tdiv] at *
    omega

/-- The word with a given value, if the value is in range. -/
def word? (n : Int) : Option Int64 :=
  if FitsWord n then some (Int64.ofInt n) else none

theorem toInt_of_word? {n : Int} {w : Int64} (h : word? n = some w) : w.toInt = n := by
  unfold word? at h
  split at h
  case isTrue hn =>
    rw [← Option.some.inj h, Int64.toInt_ofInt_of_le hn.1 (Int.lt_add_one_of_le hn.2)]
  case isFalse => cases h

@[simp] theorem word?_toInt (w : Int64) : word? w.toInt = some w := by
  simp [word?, fitsWord_toInt]

end LinearInterchange
