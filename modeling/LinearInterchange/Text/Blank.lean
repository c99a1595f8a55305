/-! # White space

Characters with the Unicode property White_Space, and trimming and splitting of texts at them.
The property holds of the no-break space and the line separator, but not of the zero-width space
or the byte order mark. -/

namespace LinearInterchange.Text

/-- The ranges of code points with the property White_Space, both ends included. -/
def blankRanges : List (Nat × Nat) :=
  [(0x09, 0x0D), (0x20, 0x20), (0x85, 0x85), (0xA0, 0xA0), (0x1680, 0x1680), (0x2000, 0x200A),
    (0x2028, 0x2029), (0x202F, 0x202F), (0x205F, 0x205F), (0x3000, 0x3000)]

/-- The character is white space. -/
def isBlank (c : Char) : Bool :=
  blankRanges.any fun (lo, hi) => lo ≤ c.toNat && c.toNat ≤ hi

/-- The text without leading white space. -/
def trimLeft (cs : List Char) : List Char :=
  cs.dropWhile isBlank

/-- The text without trailing white space. -/
def trimRight (cs : List Char) : List Char :=
  (cs.reverse.dropWhile isBlank).reverse

/-- The text without white space at either end. -/
def trim (cs : List Char) : List Char :=
  trimRight (trimLeft cs)

/-- The maximal runs of characters that are not white space. -/
def words (cs : List Char) : List (List Char) :=
  (cs.splitOnP isBlank).filter fun w => !w.isEmpty

/-- The text before the first character that satisfies `p`, and the text after it. -/
def splitFirst (p : Char → Bool) : List Char → Option (List Char × List Char)
  | [] => none
  | c :: cs => if p c then some ([], cs) else (splitFirst p cs).map fun (l, r) => (c :: l, r)

/-- The two sides of the first split, put together around the splitting character, are the text. -/
theorem eq_append_of_splitFirst {p : Char → Bool} {cs l r : List Char}
    (h : splitFirst p cs = some (l, r)) : ∃ c, p c = true ∧ cs = l ++ c :: r := by
  induction cs generalizing l with
  | nil => simp [splitFirst] at h
  | cons c cs ih =>
    by_cases hc : p c = true
    · simp only [splitFirst, hc, ↓reduceIte, Option.some.injEq, Prod.mk.injEq] at h
      exact ⟨c, hc, by simp [← h.1, h.2]⟩
    · simp only [splitFirst, hc, Bool.false_eq_true, ↓reduceIte, Option.map_eq_some_iff] at h
      obtain ⟨⟨l', r'⟩, h', heq⟩ := h
      obtain ⟨rfl, rfl⟩ := Prod.mk.injEq .. ▸ heq
      obtain ⟨d, hd, rfl⟩ := ih h'
      exact ⟨d, hd, rfl⟩

/-- The text without its first `n` bytes. There is none if they end within a character. -/
def dropBytes? : Nat → List Char → Option (List Char)
  | 0, cs => some cs
  | _ + 1, [] => none
  | n + 1, c :: cs => if c.utf8Size ≤ n + 1 then dropBytes? (n + 1 - c.utf8Size) cs else none

/-- The text with ASCII letters in upper case. -/
def upper (cs : List Char) : List Char :=
  cs.map Char.toUpper

/-- The text with ASCII letters in lower case. -/
def lower (cs : List Char) : List Char :=
  cs.map Char.toLower

end LinearInterchange.Text
