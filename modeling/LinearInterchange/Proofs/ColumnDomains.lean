import LinearInterchange.Proofs.BoundMeaning

/-!
# The domains of columns

The bounds of a column are rationals, and its domain holds the integers between them.  A column that
was marked as binary keeps the mark when its bounds are changed afterwards, so the mark alone does
not make the domain Boolean: the bounds have to be 0 and 1 as well.  The default for a missing upper
bound bounds the column, but it is not taken for the upper bound of a Boolean domain.
-/

namespace LinearInterchange

/-! ## Rounding -/

namespace Coeff

/-- The greatest integer that is at most a coefficient is a word. -/
lemma toInt_floor (c : Coeff) : c.floor.toInt = c.val.floor := by
  obtain ⟨hleast, hgreatest⟩ := c.val_mem_range
  have hle : -9223372036854775808 ≤ c.val.floor := Rat.le_floor_iff.2 (by exact_mod_cast hleast)
  have hlt : c.val.floor ≤ 9223372036854775807 := by
    exact_mod_cast (Rat.le_floor_iff.1 le_rfl).trans hgreatest
  exact Int64.toInt_ofInt_of_le hle (Int.lt_add_one_of_le hlt)

/-- The least integer that is at least a coefficient is a word. -/
lemma toInt_ceil (c : Coeff) : c.ceil.toInt = c.val.ceil := by
  obtain ⟨hleast, hgreatest⟩ := c.val_mem_range
  have hle : -9223372036854775808 ≤ c.val.ceil := by
    exact_mod_cast hleast.trans (Rat.ceil_le_iff.1 le_rfl)
  have hlt : c.val.ceil ≤ 9223372036854775807 := Rat.ceil_le_iff.2 (by exact_mod_cast hgreatest)
  exact Int64.toInt_ofInt_of_le hle (Int.lt_add_one_of_le hlt)

lemma floor_ofWord (w : Int64) : (ofWord w).floor = w := by
  rw [← Int64.toInt_inj, toInt_floor, val_ofWord, Rat.floor_intCast]

end Coeff

/-- A Boolean domain holds two integers. -/
lemma Domain.includes_bool_iff (x : ℤ) : bool.Includes x ↔ x = 0 ∨ x = 1 := by
  have hleast : bool.least.toInt = 0 := by decide
  have hgreatest : bool.greatest.toInt = 1 := by decide
  rw [Includes, hleast, hgreatest]
  omega

/-- The integers between bounds that are rounded inwards are those between the bounds. -/
lemma Domain.includes_rounded (l u : Coeff) (x : ℤ) :
    (Domain.range l.ceil u.floor).Includes x ↔ l.val ≤ x ∧ x ≤ u.val := by
  rw [Includes, least, greatest, Coeff.toInt_ceil, Coeff.toInt_floor, Rat.ceil_le_iff,
    Rat.le_floor_iff]

namespace Table

/-! ## Columns and their changes -/

namespace Column

variable {settings : Settings} {c : Column}

/-- A change of a column: a mark, or another bound. -/
inductive Change where
  | integer
  | binary
  | lower (value : Option Coeff)
  | upper (value : Option Coeff)

/-- The column after a change. -/
def Change.apply (c : Column) : Change → Column
  | integer => { c with integer := true }
  | binary => c.setBinary
  | lower value => { c with lower := value }
  | upper value => { c with upper := value }

/-- The mark for binary columns outlives all other changes. -/
lemma binary_foldl (changes : List Change) (c : Column) :
    (changes.foldl Change.apply c).binary = true ↔ c.binary = true ∨ .binary ∈ changes := by
  induction changes generalizing c with
  | nil => simp
  | cons change changes ih =>
    rw [List.foldl_cons, ih]
    cases change <;> simp [Change.apply, setBinary]

/-- The column with the default for a missing upper bound. -/
def withDefault (settings : Settings) (c : Column) : Column :=
  { c with upper := c.upper <|> settings.defaultUpper.map .ofWord }

/-- The column counts as integer, and it has a bound on each side. -/
structure IsBounded (settings : Settings) (c : Column) : Prop where
  integer : c.integer = true ∨ settings.allInteger = true
  lower : c.lower ≠ none
  upper : (c.withDefault settings).upper ≠ none

/-- A bounded column is not continuous. -/
lemma IsBounded.not_continuous (h : c.IsBounded settings) :
    ¬(!c.integer && !settings.allInteger) = true := by
  rcases h.integer with hmark | hall
  · simp [hmark]
  · simp [hall]

/-- The column is marked as binary, and its bounds are 0 and 1. -/
structure IsBinary (c : Column) : Prop where
  marked : c.binary = true
  lower : c.lower = some 0
  upper : c.upper = some 1

/-- What a column with bounds on both sides allows is between them. -/
lemma allows_withDefault {l u : Coeff} (hlower : c.lower = some l)
    (hupper : (c.withDefault settings).upper = some u) (q : ℚ) :
    (c.withDefault settings).Allows q ↔ l.val ≤ q ∧ q ≤ u.val := by
  have hlower' : (c.withDefault settings).lower = some l := hlower
  simp [Allows, hlower', hupper]

/-- The domain of a bounded column that is not binary is made of its bounds. -/
lemma domain_of_not_isBinary (h : c.IsBounded settings) (hbinary : ¬c.IsBinary) : ∃ l u,
    c.lower = some l ∧ (c.withDefault settings).upper = some u ∧
      c.domain settings = (Domain.ofBounds l.ceil u.floor).mapError (.badDomain c.name) := by
  have hmarked : ¬(c.binary && decide (c.lower = some 0) && decide (c.upper = some 1)) = true := by
    intro hall
    simp only [Bool.and_eq_true, decide_eq_true_eq] at hall
    exact hbinary ⟨hall.1.1, hall.1.2, hall.2⟩
  obtain ⟨l, hl⟩ := Option.ne_none_iff_exists'.1 h.lower
  obtain ⟨u, hu⟩ := Option.ne_none_iff_exists'.1 h.upper
  refine ⟨l, u, hl, hu, ?_⟩
  rw [domain, if_neg h.not_continuous, if_neg hmarked, hl]
  rw [withDefault] at hu
  -- the upper bound is that of the column, or else the default
  cases hupper : c.upper with
  | some u' =>
    rw [hupper] at hu
    obtain rfl := Option.some.inj hu
    rfl
  | none =>
    cases hdefault : settings.defaultUpper with
    | none =>
      rw [hupper, hdefault] at hu
      cases hu
    | some w =>
      rw [hupper, hdefault] at hu
      obtain rfl := Option.some.inj hu
      rw [Coeff.floor_ofWord]

/-- The domain of a bounded column that is binary is Boolean. -/
lemma domain_of_isBinary (h : c.IsBounded settings) (hbinary : c.IsBinary) :
    c.domain settings = .ok .bool := by
  rw [domain, if_neg h.not_continuous]
  simp [hbinary.marked, hbinary.lower, hbinary.upper]

/-- A binary column allows what a Boolean domain holds. -/
lemma IsBinary.includes_iff (h : c.IsBinary) (x : ℤ) :
    Domain.bool.Includes x ↔ (c.withDefault settings).Allows x := by
  have hupper : (c.withDefault settings).upper = some 1 := by
    rw [withDefault, h.upper]
    rfl
  rw [allows_withDefault h.lower hupper, Coeff.val_zero, Coeff.val_one]
  norm_cast

/-- A bounded column has a domain of just the integers that it allows, unless it allows none. -/
lemma domain_cases (h : c.IsBounded settings) :
    (∃ d, c.domain settings = .ok d ∧ (d = .bool ↔ c.IsBinary) ∧
      (∀ x : ℤ, d.Includes x ↔ (c.withDefault settings).Allows x) ∧
      ∃ x : ℤ, (c.withDefault settings).Allows x) ∨
    (∃ e, c.domain settings = .error (.badDomain c.name e)) ∧
      ¬∃ x : ℤ, (c.withDefault settings).Allows x := by
  by_cases hbinary : c.IsBinary
  · refine .inl ⟨.bool, domain_of_isBinary h hbinary, iff_of_true rfl hbinary,
      hbinary.includes_iff, 0, ?_⟩
    exact (hbinary.includes_iff 0).1 (by decide)
  · obtain ⟨l, u, hlower, hupper, hdomain⟩ := domain_of_not_isBinary h hbinary
    have hallows : ∀ x : ℤ, (Domain.range l.ceil u.floor).Includes x ↔
        (c.withDefault settings).Allows x := by
      intro x
      rw [allows_withDefault hlower hupper, Domain.includes_rounded]
    rw [hdomain, Domain.ofBounds]
    -- the rounded ends allow the same integers, so a range is refused just if it is empty
    by_cases hempty : u.floor < l.ceil
    · rw [if_pos hempty]
      refine .inr ⟨⟨_, rfl⟩, ?_⟩
      rintro ⟨x, hx⟩
      obtain ⟨hleast, hgreatest⟩ := (hallows x).2 hx
      have hlt := Int64.lt_iff_toInt_lt.1 hempty
      exact absurd (hleast.trans hgreatest) (not_le.2 hlt)
    · rw [if_neg hempty]
      have hle := Int64.le_iff_toInt_le.1 (Int64.not_lt.1 hempty)
      refine .inl ⟨_, rfl, iff_of_false nofun hbinary, hallows, l.ceil.toInt, ?_⟩
      exact (hallows _).1 ⟨le_rfl, hle⟩

/-- **Bounds are rounded inwards.**  A column that counts as integer and has a lower bound, and an
upper bound or a default for it, has after all changes of its marks and bounds a domain of exactly
the integers between its bounds; it is refused as malformed exactly if there are none.  The domain is
Boolean exactly if the column was marked as binary at some time and its bounds are 0 and 1, and then
these two are the integers between them. -/
theorem domain_exact {name : String} {pos : Position} {changes : List Change}
    (hc : c = changes.foldl Change.apply { name, pos }) (h : c.IsBounded settings) :
    (∀ d, c.domain settings = .ok d →
      ∀ x : ℤ, d.Includes x ↔ (c.withDefault settings).Allows x) ∧
    ((∃ d, c.domain settings = .ok d) ↔ ∃ x : ℤ, (c.withDefault settings).Allows x) ∧
    ((∃ f text, c.domain settings = .error f ∧ f.refusal = .malformed text) ↔
      ¬∃ x : ℤ, (c.withDefault settings).Allows x) ∧
    (c.domain settings = .ok .bool ↔
      .binary ∈ changes ∧ c.lower = some 0 ∧ c.upper = some 1) ∧
    (c.domain settings = .ok .bool →
      ∀ x : ℤ, (c.withDefault settings).Allows x ↔ x = 0 ∨ x = 1) := by
  have hmark : c.binary = true ↔ .binary ∈ changes := by
    rw [hc, binary_foldl]
    simp
  -- each part is read off the two outcomes: a domain that includes some integer, or none at all
  rcases domain_cases h with ⟨d, hd, hbool, hallows, hsome⟩ | ⟨⟨e, he⟩, hnone⟩
  · have hdomain : ∀ d', c.domain settings = .ok d' ↔ d = d' := by
      intro d'
      rw [hd, Except.ok.injEq]
    refine ⟨?_, ?_, ?_, ?_, ?_⟩
    · intro d' hd'
      exact (hdomain d').1 hd' ▸ hallows
    · exact iff_of_true ⟨d, hd⟩ hsome
    · refine iff_of_false ?_ (not_not.2 hsome)
      rintro ⟨f, text, hf, -⟩
      rw [hd] at hf
      cases hf
    · rw [hdomain, hbool, ← hmark]
      exact ⟨fun h => ⟨h.marked, h.lower, h.upper⟩, fun h => ⟨h.1, h.2.1, h.2.2⟩⟩
    · intro hd' x
      obtain rfl := (hdomain _).1 hd'
      rw [← hallows, Domain.includes_bool_iff]
  · have hdomain : ∀ d, c.domain settings ≠ .ok d := by
      intro d hd
      rw [he] at hd
      cases hd
    refine ⟨?_, ?_, ?_, ?_, ?_⟩
    · exact fun d hd => absurd hd (hdomain d)
    · exact iff_of_false (fun ⟨d, hd⟩ => hdomain d hd) hnone
    · exact iff_of_true ⟨_, _, he, rfl⟩ hnone
    · refine iff_of_false (hdomain _) ?_
      rintro ⟨hbinary, hlower, hupper⟩
      exact hdomain .bool (domain_of_isBinary h ⟨hmark.2 hbinary, hlower, hupper⟩)
    · exact fun hd => absurd hd (hdomain _)

/-- A third and two thirds have no integer between them, and the default takes the place of a missing
upper bound of a column that was marked as binary before. -/
theorem domain_exact_thirds :
    let settings : Settings := { defaultUpper := some 1 }
    let third : Coeff := ⟨1 / 3, by decide +kernel⟩
    let twoThirds : Coeff := ⟨2 / 3, by decide +kernel⟩
    let narrow := [Change.lower third, .integer, .upper twoThirds].foldl Change.apply
      { name := "x", pos := ⟨1, 0⟩ }
    let reopened := [Change.binary, .upper none].foldl Change.apply { name := "y", pos := ⟨2, 4⟩ }
    narrow.IsBounded settings ∧
      (∃ f text, narrow.domain settings = .error f ∧ f.refusal = .malformed text) ∧
    reopened.IsBounded settings ∧ reopened.domain settings ≠ .ok .bool ∧
      ∃ d, reopened.domain settings = .ok d := by
  intro settings third twoThirds narrow reopened
  have hnarrow : narrow.IsBounded settings := ⟨.inl rfl, nofun, nofun⟩
  have hreopened : reopened.IsBounded settings := ⟨.inl rfl, nofun, nofun⟩
  obtain ⟨-, -, hmalformed, -⟩ := domain_exact rfl hnarrow
  obtain ⟨-, hsome, -, hbool, -⟩ := domain_exact rfl hreopened
  refine ⟨hnarrow, hmalformed.2 ?_, hreopened, ?_, hsome.2 ⟨1, ?_⟩⟩
  · rintro ⟨x, hx⟩
    have hbounds : (1 / 3 : ℚ) ≤ x ∧ (x : ℚ) ≤ 2 / 3 := (allows_withDefault rfl rfl _).1 hx
    have hlow : (0 : ℚ) < x := lt_of_lt_of_le (by norm_num) hbounds.1
    have hhigh : (x : ℚ) < 1 := lt_of_le_of_lt hbounds.2 (by norm_num)
    norm_cast at hlow hhigh
    omega
  · exact fun h => Option.some_ne_none _ (hbool.1 h).2.2.symm
  · exact (allows_withDefault rfl rfl _).2 ⟨by decide, by decide⟩

end Column

end Table

end LinearInterchange
