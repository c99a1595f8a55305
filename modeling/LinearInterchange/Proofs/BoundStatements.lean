import LinearInterchange.Proofs.LpBounds
import LinearInterchange.Proofs.MpsLines
import Mathlib

/-!
# Bounds of LP and MPS files

A line of bounds in an MPS file has a type that tells which sides of a column it bounds, and for
most types a value.  The value is a number or an infinity; numbers from a certain magnitude on stand
for infinities as well.  This file tells what such a line says, and puts together what the readers
of both formats make of the bounds that they accept (`Table.bounded_of_accepted`).

Plain bounds mean what they say.  Others do not: a minus before a column and the sign of an infinity
are dropped, so that a column may keep values that its bounds exclude and lose values that they
allow (`Table.bounded_ne_of_minus`).
-/

namespace LinearInterchange

open Text Table

namespace Mps

variable {token : List Char} {value : Option Coeff} {c : Char}

/-! ## Values -/

/-- The token is a value: the word for infinity with signs before it, a number of a magnitude that
stands for infinity, or a number. -/
inductive Denotes : List Char → Endpoint → Prop
  | infinity {signs word : List Char} (hsigns : ∀ c ∈ signs, c = '+' ∨ c = '-')
      (hword : lower word = "inf".toList ∨ lower word = "infinity".toList) :
      Denotes (signs ++ word) ((Endpoint.infinite false).signed (Lp.negates (signs.map (· == '-'))))
  | huge {token : List Char} {q : ℚ} (htoken : DecimalText token q)
      (hlarge : (Model.infinite : ℚ) ≤ |q|) : Denotes token (.infinite (decide (q < 0)))
  | number {token : List Char} {c : Coeff} (h : Coeff.read token = .ok c) :
      Denotes token (.finite c.val)

/-- Letters are no signs, and in lower case only letters change. -/
lemma isSign_toLower (c : Char) :
    (c.toLower == '+' || c.toLower == '-') = (c == '+' || c == '-') := by
  have hletter : ∀ d : Char, d.isAlpha = true → (d == '+' || d == '-') = false := by
    intro d hd
    have hplus : d ≠ '+' := fun heq => by simp [heq] at hd
    have hminus : d ≠ '-' := fun heq => by simp [heq] at hd
    simp [hplus, hminus]
  by_cases hupper : c.isUpper = true
  · have halpha : c.isAlpha = true := by rw [Char.isAlpha, hupper, Bool.true_or]
    rw [hletter c halpha, hletter c.toLower (by rwa [Char.isAlpha_toLower_eq_isAlpha])]
  · rw [Char.toLower_eq_of_not_isUpper hupper]

/-- Signs are taken off a token as off the token in lower case. -/
lemma dropWhile_lower (token : List Char) :
    (lower token).dropWhile (fun c => c == '+' || c == '-') =
      lower (token.dropWhile fun c => c == '+' || c == '-') := by
  rw [lower, List.dropWhile_map, lower]
  congr 2
  funext c
  exact isSign_toLower c

/-- A numeral is no word for infinity. -/
lemma ne_infinity_of_numeral {q : ℚ} (h : Numeral token q) :
    ¬(lower (token.dropWhile fun c => c == '+' || c == '-') = "inf".toList ∨
      lower (token.dropWhile fun c => c == '+' || c == '-') = "infinity".toList) := by
  intro hword
  have hi : 'i' ∈ lower (token.dropWhile fun c => c == '+' || c == '-') := by
    rcases hword with hword | hword <;> rw [hword] <;> decide
  obtain ⟨c, hc, hlower⟩ := List.mem_map.1 hi
  have hmem := (List.dropWhile_suffix _).subset hc
  rcases h.mem hmem with hdigit | rfl | rfl | rfl | rfl | rfl | rfl
  · have hupper : ¬c.isUpper = true := by
      have hcode := toNat_of_isDigit hdigit
      simp only [Char.isUpper, decide_eq_true_eq, UInt32.le_iff_toNat_le]
      exact fun h => absurd (h.1.trans hcode.2) (by decide)
    rw [Char.toLower_eq_of_not_isUpper hupper] at hlower
    exact ne_of_isDigit hdigit (by decide) hlower
  all_goals exact absurd hlower (by decide)

/-- A number has a magnitude that stands for infinity if it is said so of the number it denotes. -/
lemma any_magnitudeAtLeast : (Decimal.read? token).any (·.magnitudeAtLeast Model.infinite) = true ↔
    ∃ q, DecimalText token q ∧ (Model.infinite : ℚ) ≤ |q| := by
  have hne : Model.infinite ≠ 0 := by decide
  simp only [Option.any_eq_true, Decimal.magnitudeAtLeast_iff hne]
  constructor
  · rintro ⟨d, hd, hlarge⟩
    exact ⟨d.value, decimalText_iff.2 ⟨d, hd, rfl⟩, hlarge⟩
  · rintro ⟨q, hq, hlarge⟩
    obtain ⟨d, hd, rfl⟩ := decimalText_iff.1 hq
    exact ⟨d, hd, hlarge⟩

/-- Coefficients are smaller than what stands for infinity. -/
lemma abs_lt_infinite (c : Coeff) : |c.val| < Model.infinite := by
  obtain ⟨hleast, hgreatest⟩ := c.val_mem_range
  rw [abs_lt, Model.infinite]
  constructor
  · refine lt_of_lt_of_le ?_ hleast
    norm_num
  · refine lt_of_le_of_lt hgreatest ?_
    norm_num

/-- The word for infinity does not begin with a sign. -/
lemma stops_of_infinity {word : List Char}
    (h : lower word = "inf".toList ∨ lower word = "infinity".toList) :
    Stops (fun c => c == '+' || c == '-') word := by
  intro c hc
  have hhead : (lower word).head? = some 'i' := by
    rcases h with h | h <;> rw [h] <;> rfl
  have hlower : c.toLower = 'i' := by
    rw [lower, List.head?_map, Option.mem_def.1 hc] at hhead
    exact Option.some.inj hhead
  have hsame := isSign_toLower c
  rw [hlower] at hsame
  exact hsame.symm

/-- A value is read and kept. -/
lemma Denotes.isKept {l : Endpoint} (h : Denotes token l)
    (hvalue : Model.readBound token = .ok value) : l.IsKept value := by
  unfold Model.readBound at hvalue
  dsimp only at hvalue
  rw [dropWhile_lower] at hvalue
  cases h with
  | infinity hsigns hword =>
    rw [dropWhile_append (fun c hc => by simpa using hsigns c hc) (stops_of_infinity hword),
      if_pos hword] at hvalue
    exact (Except.ok.inj hvalue).symm
  | huge htoken hlarge =>
    rw [if_neg (ne_infinity_of_numeral (.decimal htoken)),
      if_pos (any_magnitudeAtLeast.2 ⟨_, htoken, hlarge⟩)] at hvalue
    exact (Except.ok.inj hvalue).symm
  | number hread =>
    rename_i c
    obtain ⟨x, hnumeral, hval⟩ := Coeff.exists_numeral_of_read hread
    -- a number that can be read is small enough to be held, so it is not taken for an infinite one
    have hsmall : ¬(Decimal.read? token).any (·.magnitudeAtLeast Model.infinite) = true := by
      rw [any_magnitudeAtLeast]
      rintro ⟨q, hq, hlarge⟩
      have hle : |x| ≤ |c.val| := hval ▸ Coeff.abs_le_abs_computed token x
      rw [Numeral.unique (.decimal hq) hnumeral] at hlarge
      exact absurd (hlarge.trans hle) (not_le.2 (abs_lt_infinite c))
    rw [if_neg (ne_infinity_of_numeral hnumeral), if_neg hsmall] at hvalue
    obtain ⟨c', hc', rfl⟩ := map_eq_ok.1 hvalue
    obtain rfl := Except.ok.inj (hread.symm.trans (readCoeff_eq_ok.1 hc'))
    exact ⟨_, rfl, rfl⟩

/-- What is read as a value is one. -/
lemma exists_denotes (h : Model.readBound token = .ok value) : ∃ l, Denotes token l := by
  unfold Model.readBound at h
  dsimp only at h
  rw [dropWhile_lower] at h
  split at h
  next hword =>
    have hsigns : ∀ c ∈ token.takeWhile fun c => c == '+' || c == '-', c = '+' ∨ c = '-' :=
      fun c hc => by simpa using List.mem_takeWhile_imp hc
    have hinfinity := Denotes.infinity hsigns hword
    rw [List.takeWhile_append_dropWhile] at hinfinity
    exact ⟨_, hinfinity⟩
  next =>
    split at h
    next hlarge =>
      obtain ⟨q, hq, hle⟩ := any_magnitudeAtLeast.1 hlarge
      exact ⟨_, .huge hq hle⟩
    next =>
      obtain ⟨c, hc, -⟩ := map_eq_ok.1 h
      exact ⟨_, .number (readCoeff_eq_ok.1 hc)⟩

/-! ## Lines -/

namespace BoundKind

/-- The comparison of the column with the value, for a type of bound that has one. -/
def relation? : BoundKind → Option Relation
  | upper | integerUpper => some .le
  | lower | integerLower => some .ge
  | fixed => some .eq
  | binary | noLower | noUpper | free => none

/-- The bounds that a type without a value stands for. -/
def standing : BoundKind → List Clause
  | binary => [⟨false, .ge, .finite 0⟩, ⟨false, .le, .finite 1⟩]
  | noLower => [⟨false, .ge, .infinite true⟩]
  | noUpper => [⟨false, .le, .infinite false⟩]
  | free => [⟨false, .ge, .infinite true⟩, ⟨false, .le, .infinite false⟩]
  | upper | lower | fixed | integerLower | integerUpper => []

lemma isSome_relation? (kind : BoundKind) : kind.relation?.isSome = kind.hasValue := by
  cases kind <;> rfl

/-- A bound keeps the name and the place of its column. -/
lemma keeps_change (kind : BoundKind) (value : Option Coeff) :
    Columns.Keeps (kind.change value) := by
  intro c
  cases kind <;> exact ⟨rfl, rfl⟩

/-- A bound with a value enacts what it says. -/
lemma enacts_change {kind : BoundKind} {r : Relation} (hkind : kind.relation? = some r)
    {l : Endpoint} (hl : l.IsKept value) : Enacts (kind.change value) [⟨false, r, l⟩] where
  keeps := keeps_change kind value
  allows c q := by
    refine allows_of_side hl ?_ ?_
    · cases kind <;> cases hkind <;> rfl
    · cases kind <;> cases hkind <;> rfl

/-- A bound without a value enacts what it stands for. -/
lemma enacts_standing {kind : BoundKind} (hkind : kind.relation? = none) :
    Enacts (kind.change none) kind.standing where
  keeps := keeps_change kind none
  allows c q := by
    cases kind with
    | binary => exact allows_of_sides ⟨0, rfl, Coeff.val_zero⟩ ⟨1, rfl, Coeff.val_one⟩
    | noLower => exact allows_of_side (b := ⟨false, .ge, .infinite true⟩) rfl rfl rfl
    | noUpper => exact allows_of_side (b := ⟨false, .le, .infinite false⟩) rfl rfl rfl
    | free => exact allows_of_sides rfl rfl
    | upper | lower | fixed | integerLower | integerUpper => cases hkind

end BoundKind

/-- The fields of a line are bounds of the column of a name: a type, a name of the set of bounds
that may be left out, the name of the column, and a value if the type has one. -/
inductive BoundSays : List (List Char) → List Char → List Clause → Prop
  | valued {keyword col token : List Char} {set : Option (List Char)} {kind : BoundKind}
      {r : Relation} {l : Endpoint} (hkeyword : upper keyword = kind.word.toList)
      (hkind : kind.relation? = some r) (hl : Denotes token l) :
      BoundSays (keyword :: (set.toList ++ [col, token])) col [⟨false, r, l⟩]
  | standing {keyword col : List Char} {set : Option (List Char)} {kind : BoundKind}
      (hkeyword : upper keyword = kind.word.toList) (hkind : kind.relation? = none) :
      BoundSays (keyword :: (set.toList ++ [col])) col kind.standing

/-- The parts of a line of bounds that is accepted. -/
structure Accepted (m : Model) (keyword : List Char) (rest : List (List Char)) (m' : Model)
    (kind : BoundKind) (col : List Char) (token : Option (List Char)) (value : Option Coeff) :
    Prop where
  keyword : upper keyword = kind.word.toList
  fields : Model.boundFields kind.word.toList rest = .ok (col, token)
  read : token.elim (.ok none) Model.readBound = .ok value
  changed : ∃ n cols, m.cols.number? (.ofList col) = some n ∧
    m.cols.update n (kind.change value) = .ok cols ∧ m' = { m with cols }

/-- A line of bounds that is accepted has a type, a column that there is, and perhaps a value. -/
lemma exists_accepted {m m' : Model} {fields : List (List Char)} (h : m.addBound fields = .ok m') :
    ∃ keyword rest kind col token value, fields = keyword :: rest ∧
      Accepted m keyword rest m' kind col token value := by
  unfold Model.addBound at h
  split at h
  · cases h
  next keyword rest =>
    obtain ⟨⟨col, token⟩, hfields, h⟩ := bind_eq_ok.1 h
    dsimp only at h
    split at h
    · cases h
    next n hn =>
      have hbind : (do
          let value ← token.elim (Except.ok none) Model.readBound
          m.updateColumn n (← Model.boundAction (upper keyword) value)) = .ok m' := by
        cases token <;> exact h
      obtain ⟨value, hvalue, h⟩ := bind_eq_ok.1 hbind
      obtain ⟨f, hf, h⟩ := bind_eq_ok.1 h
      obtain ⟨kind, hkind, rfl⟩ := boundAction_eq_ok.1 hf
      obtain ⟨cols, hcols, h⟩ := bind_eq_ok.1 h
      obtain rfl := Except.ok.inj h
      exact ⟨keyword, rest, kind, col, token, value, rfl, hkind, hkind ▸ hfields, hvalue, n, cols,
        hn, mapError_eq_ok.1 hcols, rfl⟩

/-- The name of the set of bounds may be left out. -/
lemma boundFields_of_set {kind : BoundKind} (token : Option (List Char))
    (htoken : token.isSome = kind.relation?.isSome) (set : Option (List Char)) (col : List Char) :
    Model.boundFields kind.word.toList (set.toList ++ col :: token.toList) = .ok (col, token) := by
  rw [kind.isSome_relation?] at htoken
  refine boundFields_eq_ok.2 ⟨htoken, ?_⟩
  cases set with
  | none => exact .inl rfl
  | some set => exact .inr ⟨set, rfl⟩

variable {m m' : Model} {keyword col : List Char} {rest : List (List Char)} {kind : BoundKind}

/-- A line of bounds that is accepted says something. -/
lemma Accepted.exists_boundSays {token : Option (List Char)}
    (h : Accepted m keyword rest m' kind col token value) :
    ∃ bs, BoundSays (keyword :: rest) col bs := by
  obtain ⟨hsome, hrest⟩ := boundFields_eq_ok.1 h.fields
  obtain ⟨set, rfl⟩ : ∃ set : Option (List Char), rest = set.toList ++ col :: token.toList := by
    rcases hrest with rfl | ⟨set, rfl⟩
    · exact ⟨none, rfl⟩
    · exact ⟨some set, rfl⟩
  rw [← kind.isSome_relation?] at hsome
  have hvalue := h.read
  cases token with
  | none =>
    have hkind : kind.relation? = none := by simpa using hsome.symm
    exact ⟨_, .standing h.keyword hkind⟩
  | some token =>
    obtain ⟨r, hkind⟩ := Option.isSome_iff_exists.1 hsome.symm
    obtain ⟨l, hl⟩ := exists_denotes hvalue
    exact ⟨_, .valued h.keyword hkind hl⟩

/-- **A line of bounds that is accepted enacts what it says.** -/
lemma Accepted.enacts {token : Option (List Char)} {x : List Char} {bs : List Clause}
    (h : Accepted m keyword rest m' kind col token value)
    (hsay : BoundSays (keyword :: rest) x bs) :
    x = col ∧ Enacts (kind.change value) bs := by
  have hfields := h.fields
  have hvalue := h.read
  generalize hline : keyword :: rest = fields at hsay
  cases hsay with
  | valued hkeyword hkind hl =>
    rename_i keyword' token' set kind' r l
    obtain ⟨rfl, rfl⟩ := List.cons.inj hline
    obtain rfl := BoundKind.word_injective
      (String.toList_injective (hkeyword.symm.trans h.keyword))
    have hsame := boundFields_of_set (some token') (by rw [hkind]; rfl) set x
    obtain ⟨rfl, rfl⟩ := Prod.mk.inj (Except.ok.inj (hsame.symm.trans hfields))
    exact ⟨rfl, BoundKind.enacts_change hkind (hl.isKept hvalue)⟩
  | standing hkeyword hkind =>
    rename_i keyword' set kind'
    obtain ⟨rfl, rfl⟩ := List.cons.inj hline
    obtain rfl := BoundKind.word_injective
      (String.toList_injective (hkeyword.symm.trans h.keyword))
    have hsame := boundFields_of_set none (by rw [hkind]; rfl) set x
    obtain ⟨rfl, rfl⟩ := Prod.mk.inj (Except.ok.inj (hsame.symm.trans hfields))
    obtain rfl := Except.ok.inj hvalue
    exact ⟨rfl, BoundKind.enacts_standing hkind⟩

/-- **A line of bounds that is accepted bounds the column that it is for**, and changes nothing
else. -/
lemma Model.bounded_of_addData {pos : Position} {fields : List (List Char)}
    (hpart : m.part = .bounds) (h : m.addData pos fields = .ok m') :
    (∃ x bs, BoundSays fields x bs) ∧ ∀ x bs, BoundSays fields x bs →
      m.cols.Bounded (.ofList x) bs m'.cols ∧ m' = { m with cols := m'.cols } := by
  unfold addData at h
  simp only [hpart] at h
  obtain ⟨keyword, rest, kind, col, token, value, rfl, haccepted⟩ := exists_accepted h
  refine ⟨⟨col, haccepted.exists_boundSays⟩, fun x bs hsay => ?_⟩
  obtain ⟨rfl, henacts⟩ := haccepted.enacts hsay
  obtain ⟨n, cols, hn, hcols, rfl⟩ := haccepted.changed
  exact ⟨henacts.bounded hn hcols, rfl⟩

end Mps

/-- **What the readers make of bounds.**  Every line of bounds that one of the readers accepts is
bounds of some column.  Whatever bounds of whatever column it is, the values that this column allows
afterwards are those that the bounds admit as they are read, given the bounds that it had before;
and if the bounds are plain, they are those that the bounds admit as they are written.  Other
columns, and all else, stay as they are. -/
theorem Table.bounded_of_accepted (pos : Position) :
    (∀ (m m' : Lp.Model) (cs : List Char), m.part = .bounds → cs ≠ [] →
      m.addTokens pos cs = .ok m' → ∃ ts, Lp.Token.scan cs = .ok ts ∧
        (∃ x bs, Lp.BoundSays ts x bs) ∧ ∀ x bs, Lp.BoundSays ts x bs →
          (m.cols.ensure (.ofList x) pos).2.Bounded (.ofList x) bs m'.cols ∧
            m' = { m with cols := m'.cols }) ∧
    ∀ (m m' : Mps.Model) (fields : List (List Char)), m.part = .bounds →
      m.addData pos fields = .ok m' → (∃ x bs, Mps.BoundSays fields x bs) ∧
        ∀ x bs, Mps.BoundSays fields x bs →
          m.cols.Bounded (.ofList x) bs m'.cols ∧ m' = { m with cols := m'.cols } :=
  ⟨fun _ _ _ hpart hcs h => Lp.Model.bounded_of_addTokens hpart hcs h,
    fun _ _ _ hpart h => Mps.Model.bounded_of_addData hpart h⟩

/-- An upper bound of a column that first appears there, and an infinite one of a column that there
is. -/
theorem Table.bounded_of_accepted_upper :
    (∃ m' : Lp.Model,
      ({ part := .bounds } : Lp.Model).addTokens ⟨5, 31⟩ "x <= 5".toList = .ok m' ∧
        Columns.Bounded [{ name := "x", pos := ⟨5, 31⟩ }] "x" [⟨false, .le, .finite 5⟩] m'.cols) ∧
    ∃ m' : Mps.Model,
      ({ part := .bounds, cols := [{ name := "x", pos := ⟨4, 20⟩ }] } : Mps.Model).addData ⟨9, 88⟩
          ["up".toList, "x".toList, "+Inf".toList] = .ok m' ∧
        Columns.Bounded [{ name := "x", pos := ⟨4, 20⟩ }] "x" [⟨false, .le, .infinite false⟩]
          m'.cols := by
  constructor
  · obtain ⟨m', hm, -⟩ := exists_eq_ok_of_map (f := Lp.Model.cols)
      (x := ({ part := .bounds } : Lp.Model).addTokens ⟨5, 31⟩ "x <= 5".toList)
      (b := [{ name := "x", pos := ⟨5, 31⟩, upper := some (.ofWord 5) }]) (by decide +kernel)
    have hscan : Lp.Token.scan "x <= 5".toList = .ok [.ident ['x'], .rel .le, .num ['5']] := by
      decide +kernel
    have hfive : Lp.Item.Denotes ⟨[], .num ['5']⟩ (.finite 5) :=
      .number (c := .ofWord 5) (by decide +kernel)
    obtain ⟨ts, hts, -, hall⟩ := (Table.bounded_of_accepted _).1 _ m' _ rfl (by decide) hm
    obtain rfl := Except.ok.inj (hscan.symm.trans hts)
    have hsay : Lp.BoundSays [.ident ['x'], .rel .le, .num ['5']] ['x']
        [⟨false, .le, .finite 5⟩] :=
      ⟨[⟨[], .ident ['x']⟩, ⟨[], .rel .le⟩, ⟨[], .num ['5']⟩], ⟨by simp, [], rfl⟩,
        .right (s := []) (by decide) hfive⟩
    exact ⟨m', hm, (hall _ _ hsay).1⟩
  · obtain ⟨m', hm, -⟩ := exists_eq_ok_of_map (f := Mps.Model.cols)
      (x := ({ part := .bounds, cols := [{ name := "x", pos := ⟨4, 20⟩ }] } : Mps.Model).addData
        ⟨9, 88⟩ ["up".toList, "x".toList, "+Inf".toList])
      (b := [{ name := "x", pos := ⟨4, 20⟩ }]) (by decide +kernel)
    have hvalue : Mps.Denotes (['+'] ++ "Inf".toList) (.infinite false) :=
      .infinity (by simp) (.inl (by decide))
    have hupper : upper "up".toList = Mps.BoundKind.upper.word.toList := by decide
    have hsay : Mps.BoundSays ("up".toList :: (none.toList ++ ["x".toList, "+Inf".toList]))
        "x".toList [⟨false, .le, .infinite false⟩] :=
      .valued hupper rfl hvalue
    exact ⟨m', hm, (((Table.bounded_of_accepted _).2 _ m' _ rfl hm).2 _ _ hsay).1⟩

/-- A bound with a minus before the column does not bound it as it says: the column loses values
that are admitted. -/
theorem Table.bounded_ne_of_minus :
    ∃ (c c' : Column) (m' : Lp.Model) (bs : List Clause) (q : ℚ),
      ({ part := .bounds, cols := [c] } : Lp.Model).addTokens ⟨6, 26⟩ "-x <= 5".toList = .ok m' ∧
        Lp.Token.scan "-x <= 5".toList = .ok [.sign true, .ident ['x'], .rel .le, .num ['5']] ∧
          Lp.BoundSays [.sign true, .ident ['x'], .rel .le, .num ['5']] ['x'] bs ∧
            m'.cols = [c'] ∧ Admits bs c q ∧ ¬c'.Allows q := by
  obtain ⟨m', hm, hcols⟩ := exists_eq_ok_of_map (f := Lp.Model.cols)
    (x := Lp.Model.addTokens
      { part := .bounds, cols := [{ name := "x", pos := ⟨5, 18⟩, upper := some (.ofWord 7) }] }
      ⟨6, 26⟩ "-x <= 5".toList)
    (b := [{ name := "x", pos := ⟨5, 18⟩, upper := some (.ofWord 5) }]) (by decide +kernel)
  have hscan : Lp.Token.scan "-x <= 5".toList =
      .ok [.sign true, .ident ['x'], .rel .le, .num ['5']] := by
    decide +kernel
  have hfive : Lp.Item.Denotes ⟨[], .num ['5']⟩ (.finite 5) :=
    .number (c := .ofWord 5) (by decide +kernel)
  have hsay : Lp.BoundSays [.sign true, .ident ['x'], .rel .le, .num ['5']] ['x']
      [⟨true, .le, .finite 5⟩] :=
    ⟨[⟨[true], .ident ['x']⟩, ⟨[], .rel .le⟩, ⟨[], .num ['5']⟩], ⟨by simp, [], rfl⟩,
      .right (s := [true]) (by decide) hfive⟩
  refine ⟨_, _, m', _, 6, hm, hscan, hsay, hcols, ⟨?_, ?_, ?_⟩, ?_⟩
  · refine List.forall_mem_singleton.2 ?_
    show -(6 : ℚ) ≤ 5
    norm_num
  · simp [Clause.relation, Relation.flip]
  · rintro - u ⟨⟩
    show (6 : ℚ) ≤ 7
    norm_num
  · rintro ⟨-, hupper⟩
    have hle : (6 : ℚ) ≤ 5 := hupper _ rfl
    norm_num at hle

end LinearInterchange
