import LinearInterchange.Proofs.MpsState

/-!
# What the reader of free MPS takes from a line

A line is accepted exactly if it says facts that can follow what was said before, and then the
reader takes these facts from it and nothing else (`Describes.addText_eq_ok`).  There is a lemma for
each kind of line; a line with several entries or right-hand sides is taken entry by entry.
-/

namespace LinearInterchange.Mps

open Text Table

variable {m m' : Model} {facts : List Fact} {pos : Position}

/-- The reader takes facts with a property, which can follow those before. -/
def Takes (facts : List Fact) (pos : Position) (m m' : Model) (P : List Fact → Prop) : Prop :=
  ∃ more, P more ∧ AllFit facts more ∧ m' = m.takeAll pos more

/-- A single fact can follow if it is said that it can. -/
lemma allFit_singleton {fact : Fact} : AllFit facts [fact] ↔ fact.Fits facts :=
  and_iff_left True.intro

/-! ## Tokens -/

lemma readCoeff_eq_ok {token : List Char} {value : Coeff} :
    readCoeff token = .ok value ↔ Coeff.read token = .ok value :=
  mapError_eq_ok

/-- Fields are put together two by two. -/
lemma pairs_eq_ok {fields : List (List Char)} {tokens : List (List Char × List Char)} :
    pairs fields = .ok tokens ↔ fields = fieldsOf tokens := by
  fun_induction pairs fields generalizing tokens with
  | case1 =>
    cases tokens with
    | nil => simp [fieldsOf]
    | cons p tokens => simp [fieldsOf]
  | case2 field =>
    cases tokens with
    | nil => simp [fieldsOf]
    | cons p tokens => simp [fieldsOf]
  | case3 row value rest ih =>
    rw [map_eq_ok]
    cases tokens with
    | nil => simp [fieldsOf]
    | cons p tokens =>
      rw [fieldsOf, List.flatMap_cons, ← fieldsOf]
      constructor
      · rintro ⟨tokens', hrest, heq⟩
        obtain ⟨rfl, rfl⟩ := List.cons.inj heq
        rw [ih.1 hrest]
        rfl
      · intro heq
        injection heq with hrow heq
        injection heq with hvalue heq
        exact ⟨tokens, ih.2 heq, by rw [hrow, hvalue]⟩

/-- The kind of a bound decides what it does. -/
lemma boundAction_eq_ok {keyword : List Char} {value : Option Coeff} {f : Column → Column} :
    Model.boundAction keyword value = .ok f ↔
      ∃ kind : BoundKind, keyword = kind.word.toList ∧ f = kind.change value := by
  constructor
  · unfold Model.boundAction
    intro h
    have hword : ∀ word : String, String.ofList keyword = word → keyword = word.toList :=
      fun word hword => by rw [← hword, String.toList_ofList]
    split at h
    next heq => exact ⟨.upper, hword _ heq, (Except.ok.inj h).symm⟩
    next heq => exact ⟨.lower, hword _ heq, (Except.ok.inj h).symm⟩
    next heq => exact ⟨.fixed, hword _ heq, (Except.ok.inj h).symm⟩
    next heq => exact ⟨.binary, hword _ heq, (Except.ok.inj h).symm⟩
    next heq => exact ⟨.integerLower, hword _ heq, (Except.ok.inj h).symm⟩
    next heq => exact ⟨.integerUpper, hword _ heq, (Except.ok.inj h).symm⟩
    next heq => exact ⟨.noLower, hword _ heq, (Except.ok.inj h).symm⟩
    next heq => exact ⟨.noUpper, hword _ heq, (Except.ok.inj h).symm⟩
    next heq => exact ⟨.free, hword _ heq, (Except.ok.inj h).symm⟩
    next => cases h
  · rintro ⟨kind, rfl, rfl⟩
    rw [Model.boundAction, String.ofList_toList]
    cases kind <;> rfl

/-- Whether a bound has a value is seen from its word. -/
lemma hasValue_eq (kind : BoundKind) :
    (["BV", "FR", "MI", "PL"].any fun s => kind.word.toList = s.toList) = !kind.hasValue := by
  cases kind <;> decide

/-- The kind of a bound decides whether it has a value; the name of the set may be missing. -/
lemma boundFields_eq_ok {kind : BoundKind} {fields : List (List Char)} {col : List Char}
    {token : Option (List Char)} :
    Model.boundFields kind.word.toList fields = .ok (col, token) ↔
      token.isSome = kind.hasValue ∧
        (fields = col :: token.toList ∨ ∃ set, fields = set :: col :: token.toList) := by
  have hbare := hasValue_eq kind
  simp only [Model.boundFields]
  -- what matters about the keyword is only whether a value comes with it
  generalize (["BV", "FR", "MI", "PL"].any fun s => kind.word.toList = s.toList) = bare at hbare ⊢
  subst hbare
  split
  next set col' value hvalue =>
    have hvalue : kind.hasValue = true := by simpa using hvalue
    cases token <;> grind
  next col' value hvalue =>
    have hvalue : kind.hasValue = true := by simpa using hvalue
    cases token <;> grind
  next set col' hvalue =>
    have hvalue : kind.hasValue = false := by simpa using hvalue
    cases token <;> grind
  next col' hvalue =>
    have hvalue : kind.hasValue = false := by simpa using hvalue
    cases token <;> grind
  next h₁ h₂ h₃ h₄ =>
    refine iff_of_false (fun h => by cases h) ?_
    rintro ⟨hsome, rfl | ⟨set, rfl⟩⟩
    · cases token <;> simp_all
    · cases token <;> simp_all

/-! ## Rows and columns by number -/

/-- A row that there is is found at the place of its name. -/
lemma rowNumber_eq_ok {name : List Char} {n : ℕ} : m.rowNumber name = .ok n ↔
    .ofList name ∈ m.rows.map (·.name) ∧ n = (m.rows.map (·.name)).idxOf (.ofList name) := by
  rw [← findIdx?_name, Model.rowNumber]
  split
  next k hk => simp [hk]
  next hk => simp [hk]

/-- A column that there is can be changed. -/
lemma updateColumn_idxOf (hnodup : (m.cols.map (·.name)).Nodup) {name : String}
    (hmem : name ∈ m.cols.map (·.name)) (f : Column → Column) :
    m.updateColumn ((m.cols.map (·.name)).idxOf name) f =
      .ok { m with cols := changeNamed (·.name) name f m.cols } := by
  have hlt := List.idxOf_lt_length_iff.2 hmem
  rw [List.length_map] at hlt
  rw [Model.updateColumn, Columns.update, if_pos hlt, modify_eq_changeNamed hnodup hmem]
  rfl

/-- A column that is looked up stands at the place of its name, also if it is new. -/
lemma ensure_eq (cols : Columns) (name : String) (pos : Position) :
    cols.ensure name pos =
      (((ensured cols name pos).map (·.name)).idxOf name, ensured cols name pos) := by
  unfold Columns.ensure
  split
  next n hn =>
    obtain ⟨hmem, rfl⟩ := findIdx?_name.1 hn
    rw [ensured, if_pos hmem]
  next hnone =>
    have hnew : name ∉ cols.map (·.name) := by
      intro hmem
      rw [Columns.number?, findIdx?_name.2 ⟨hmem, rfl⟩] at hnone
      cases hnone
    rw [ensured, if_neg hnew, List.map_append, List.idxOf_append_of_notMem hnew, List.map_singleton,
      List.idxOf_cons_self, List.length_map, Nat.add_zero]

namespace Describes

lemma rowNames (h : Describes facts m) : m.rows.map (·.name) = (rowsOf facts).map (·.2) := by
  rw [h.rows, List.map_map]
  rfl

/-- A row that there is can be changed. -/
lemma updateRow_eq (h : Describes facts m) {name : String} (hmem : name ∈ m.rows.map (·.name))
    (f : Row → Row) : m.updateRow ((m.rows.map (·.name)).idxOf name) f =
      .ok { m with rows := changeNamed (·.name) name f m.rows } := by
  have hlt := List.idxOf_lt_length_iff.2 hmem
  rw [List.length_map] at hlt
  rw [Model.updateRow, if_pos hlt, modify_eq_changeNamed _ hmem]
  rw [h.rowNames]
  exact h.apart

/-- A column that there is is found at the place of its name. -/
lemma number?_eq_some (h : Describes facts m) {name : String} {n : ℕ} :
    m.cols.number? name = some n ↔
      name ∈ columnsOf facts ∧ n = (m.cols.map (·.name)).idxOf name := by
  rw [← h.columns]
  exact findIdx?_name

/-- A column that there is can be changed. -/
lemma updateColumn_eq (h : Describes facts m) {name : String} (hmem : name ∈ columnsOf facts)
    (f : Column → Column) : m.updateColumn ((m.cols.map (·.name)).idxOf name) f =
      .ok { m with cols := changeNamed (·.name) name f m.cols } := by
  rw [← h.columns] at hmem
  refine updateColumn_idxOf ?_ hmem f
  rw [h.columns]
  exact nodup_columnsOf facts

/-- The row that the facts describe stands at the place of its name. -/
lemma row_eq (h : Describes facts m) {row : Option Relation × String} (hmem : row ∈ rowsOf facts) :
    m.row ((m.rows.map (·.name)).idxOf row.2) = .ok (rowOf facts row) := by
  obtain ⟨i, hi, rfl⟩ := List.mem_iff_getElem.1 hmem
  have hplace : ((rowsOf facts).map (·.2)).idxOf (rowsOf facts)[i].2 = i := by
    have hlt : i < ((rowsOf facts).map (·.2)).length := by rwa [List.length_map]
    have := h.apart.idxOf_getElem i hlt
    rwa [List.getElem_map] at this
  rw [h.rowNames, hplace, Model.row, h.rows, List.getElem?_map, List.getElem?_eq_getElem hi]
  rfl

/-- Only one of the rows has the name of a row. -/
lemma eq_rowOf (h : Describes facts m) {row : Option Relation × String} (hmem : row ∈ rowsOf facts)
    {r : Row} (hr : r ∈ m.rows) (hname : r.name = row.2) : r = rowOf facts row := by
  rw [h.rows] at hr
  obtain ⟨row', hrow', rfl⟩ := List.mem_map.1 hr
  rw [List.inj_on_of_nodup_map h.apart hrow' hmem hname]

/-- The first objective is known by its name. -/
lemma rowKindOf_eq_objective (h : Describes facts m) {row : Option Relation × String}
    (hmem : row ∈ rowsOf facts) :
    rowKindOf facts row = .objective ↔ firstObjective? facts = some row.2 := by
  constructor
  · obtain ⟨_ | rel, name⟩ := row
    · rw [rowKindOf]
      split
      next hfirst => exact fun _ => hfirst
      next => exact fun h => by cases h
    · exact fun h => by cases h
  · intro hfirst
    obtain ⟨first, hfind, hname⟩ := Option.map_eq_some_iff.1 hfirst
    obtain rfl := List.inj_on_of_nodup_map h.apart (List.mem_of_find?_eq_some hfind) hmem hname
    obtain ⟨rel, name⟩ := first
    obtain rfl : rel = none := by simpa using List.find?_some hfind
    exact if_pos hfirst

/-- A right-hand side changes a row with a comparison. -/
lemma take_rhs (h : Describes facts m) {row : Option Relation × String} (hmem : row ∈ rowsOf facts)
    (value : Coeff) : m.take pos (.rhs row.2 value) =
      match rowKindOf facts row with
      | .constr _ => { m with rows := changeNamed (·.name) row.2 ({ · with rhs := value }) m.rows }
      | _ => m := by
  have hkind : ∀ r ∈ m.rows, r.name = row.2 → r.kind = rowKindOf facts row := by
    intro r hr hname
    rw [h.eq_rowOf hmem hr hname]
    rfl
  rw [Model.take]
  split
  next rel hrel =>
    rw [changeNamed_congr fun r hr hname => ?_]
    simp only [hkind r hr hname, hrel]
  next hne =>
    rw [changeNamed_eq_self fun r hr hname => ?_]
    simp only [hkind r hr hname]

/-! ## Entries and right-hand sides -/

/-- An entry of a column is accepted if its row is there. -/
lemma addEntry_eq_ok (h : Describes facts m) {col : String} (hcol : col ∈ columnsOf facts)
    {token : List Char × List Char} :
    Model.addEntry ((columnsOf facts).idxOf col) m token = .ok m' ↔
      ∃ value, Gives token value ∧ (Fact.entry col value.1 value.2).Fits facts ∧
        m' = m.take pos (.entry col value.1 value.2) := by
  constructor
  · intro hadd
    obtain ⟨coeff, hcoeff, hadd⟩ := bind_eq_ok.1 hadd
    obtain ⟨n, hn, hadd⟩ := bind_eq_ok.1 hadd
    obtain ⟨hmem, rfl⟩ := rowNumber_eq_ok.1 hn
    rw [h.updateRow_eq hmem] at hadd
    refine ⟨(.ofList token.1, coeff), ⟨rfl, readCoeff_eq_ok.1 hcoeff⟩, ⟨hcol, ?_⟩, ?_⟩
    · rwa [← h.rowNames]
    · rw [← h.columns] at hadd
      exact (Except.ok.inj hadd).symm
  · rintro ⟨⟨row, coeff⟩, ⟨rfl, hcoeff⟩, ⟨-, hmem⟩, rfl⟩
    rw [← h.rowNames] at hmem
    refine bind_eq_ok.2 ⟨coeff, readCoeff_eq_ok.2 hcoeff, bind_eq_ok.2 ⟨_, rowNumber_eq_ok.2
      ⟨hmem, rfl⟩, ?_⟩⟩
    rw [h.updateRow_eq hmem, ← h.columns]
    rfl

/-- The objective has no right-hand side but zero. -/
lemma setRhs_eq (h : Describes facts m) {row : Option Relation × String}
    (hmem : row ∈ rowsOf facts) {token : List Char × List Char} (hname : row.2 = .ofList token.1)
    {value : Coeff} (hvalue : readCoeff token.2 = .ok value) :
    m.setRhs token = if rowKindOf facts row = .objective ∧ value ≠ 0 then
      .error .objectiveOffset else .ok (m.take pos (.rhs row.2 value)) := by
  have hrow : row.2 ∈ m.rows.map (·.name) := h.rowNames ▸ List.mem_map_of_mem hmem
  have hnumber : m.rowNumber token.1 = .ok ((m.rows.map (·.name)).idxOf row.2) :=
    rowNumber_eq_ok.2 (hname ▸ ⟨hrow, rfl⟩)
  rw [h.take_rhs hmem, Model.setRhs, hvalue]
  show (m.rowNumber token.1 >>= _) = _
  rw [hnumber]
  show (m.row _ >>= _) = _
  rw [h.row_eq hmem]
  cases hkind : rowKindOf facts row with
  | objective =>
    by_cases hzero : value = 0 <;> simp [bind, Except.bind, rowOf, hkind, hzero, pure, Except.pure]
  | free => simp [bind, Except.bind, rowOf, hkind, pure, Except.pure]
  | constr rel => simp [bind, Except.bind, rowOf, hkind, h.updateRow_eq hrow]

/-- A right-hand side is accepted if its row is there; that of the objective has to be zero. -/
lemma setRhs_eq_ok (h : Describes facts m) {token : List Char × List Char} :
    m.setRhs token = .ok m' ↔
      ∃ value, Gives token value ∧ (Fact.rhs value.1 value.2).Fits facts ∧
        m' = m.take pos (.rhs value.1 value.2) := by
  constructor
  · intro hset
    obtain ⟨value, hvalue, hrest⟩ := bind_eq_ok.1 hset
    obtain ⟨n, hn, -⟩ := bind_eq_ok.1 hrest
    have hmem := (rowNumber_eq_ok.1 hn).1
    rw [h.rowNames] at hmem
    obtain ⟨row, hrow, hname⟩ := List.mem_map.1 hmem
    rw [h.setRhs_eq hrow hname hvalue] at hset
    split at hset
    · cases hset
    next hzero =>
      rw [h.rowKindOf_eq_objective hrow, not_and, not_not] at hzero
      refine ⟨(row.2, value), ⟨hname, readCoeff_eq_ok.1 hvalue⟩, ⟨?_, hzero⟩, ?_⟩
      · rwa [hname]
      · exact (Except.ok.inj hset).symm
  · rintro ⟨⟨name, value⟩, ⟨hname, hvalue⟩, ⟨hmem, hzero⟩, rfl⟩
    obtain ⟨row, hrow, rfl⟩ := List.mem_map.1 hmem
    rw [h.setRhs_eq hrow hname (readCoeff_eq_ok.2 hvalue), if_neg]
    rw [h.rowKindOf_eq_objective hrow]
    rintro ⟨hfirst, hne⟩
    exact hne (hzero hfirst)

end Describes

/-- A step over pairs of tokens that takes one fact for each pair takes all of them in order. -/
lemma foldlM_eq_ok {step : Model → List Char × List Char → Except Fault Model}
    (fact : String × Coeff → Fact) (P : List Fact → Prop)
    (hP : ∀ facts value, P facts → P (facts ++ [fact value]))
    (hstep : ∀ {facts m m' token}, Describes facts m → P facts → (step m token = .ok m' ↔
      ∃ value, Gives token value ∧ (fact value).Fits facts ∧ m' = m.take pos (fact value)))
    (h : Describes facts m) (hfacts : P facts) {tokens : List (List Char × List Char)} :
    tokens.foldlM step m = .ok m' ↔ ∃ values, List.Forall₂ Gives tokens values ∧
      AllFit facts (values.map fact) ∧ m' = m.takeAll pos (values.map fact) := by
  induction tokens generalizing facts m with
  | nil =>
    constructor
    · intro hm
      cases hm
      exact ⟨[], .nil, True.intro, rfl⟩
    · rintro ⟨values, hvalues, -, rfl⟩
      cases hvalues
      rfl
  | cons token tokens ih =>
    rw [List.foldlM_cons, bind_eq_ok]
    constructor
    · rintro ⟨m₁, hm₁, hrest⟩
      obtain ⟨value, hvalue, hfits, rfl⟩ := (hstep h hfacts).1 hm₁
      obtain ⟨values, hvalues, hfit, rfl⟩ := (ih (h.take pos hfits) (hP _ _ hfacts)).1 hrest
      exact ⟨value :: values, .cons hvalue hvalues, ⟨hfits, hfit⟩, rfl⟩
    · rintro ⟨values, hvalues, hfit, rfl⟩
      cases hvalues with
      | cons hvalue hvalues =>
        exact ⟨_, (hstep h hfacts).2 ⟨_, hvalue, hfit.1, rfl⟩,
          (ih (h.take pos hfit.1) (hP _ _ hfacts)).2 ⟨_, hvalues, hfit.2, rfl⟩⟩

/-- Entries of a column are accepted one after another. -/
lemma addEntries_eq_ok (pos : Position) (h : Describes facts m) {name : String}
    (hname : name ∈ columnsOf facts) {tokens : List (List Char × List Char)} :
    tokens.foldlM (Model.addEntry ((columnsOf facts).idxOf name)) m = .ok m' ↔
      ∃ values, List.Forall₂ Gives tokens values ∧
        AllFit facts (values.map fun v => .entry name v.1 v.2) ∧
        m' = m.takeAll pos (values.map fun v => .entry name v.1 v.2) := by
  -- the column stays at its place when entries are added
  let P (facts' : List Fact) : Prop :=
    name ∈ columnsOf facts' ∧ (columnsOf facts').idxOf name = (columnsOf facts).idxOf name
  refine foldlM_eq_ok (fun v => .entry name v.1 v.2) P ?_ ?_ h ⟨hname, rfl⟩
  · intro facts' value hP
    rwa [show P (facts' ++ [_]) ↔ P facts' by simp only [P, columnsOf_concat]; rfl]
  · intro facts' m₁ m₂ token h' hP
    rw [← hP.2]
    exact h'.addEntry_eq_ok hP.1

/-! ## Lines of data -/

/-- A letter announces a kind of row. -/
lemma rowKind_eq_ok {letter : List Char} {kind : RowKind} : m.rowKind letter = .ok kind ↔
    ∃ rel, upper letter = [rowLetter rel] ∧ kind = m.kindFor rel := by
  constructor
  · unfold Model.rowKind
    intro h
    split at h
    next hletter => exact ⟨none, hletter, (Except.ok.inj h).symm⟩
    split at h
    next hletter => exact ⟨some .le, hletter, (Except.ok.inj h).symm⟩
    split at h
    next hletter => exact ⟨some .ge, hletter, (Except.ok.inj h).symm⟩
    split at h
    next hletter => exact ⟨some .eq, hletter, (Except.ok.inj h).symm⟩
    next => cases h
  · rintro ⟨rel, hletter, rfl⟩
    rw [Model.rowKind, hletter]
    rcases rel with _ | _ | _ | _ <;> rfl

namespace Describes

/-- A line of the rows adds a row. -/
lemma addRow_eq_ok (h : Describes facts m) {fields : List (List Char)} :
    m.addRow fields = .ok m' ↔ Takes facts pos m m' (DataSays .rows fields) := by
  have hnames : ∀ name, m.rows.any (·.name = name) = true ↔ name ∈ (rowsOf facts).map (·.2) := by
    intro name
    rw [← h.rowNames]
    simp
  constructor
  · intro hadd
    unfold Model.addRow at hadd
    split at hadd
    next letter name =>
      obtain ⟨kind, hkind, hadd⟩ := bind_eq_ok.1 hadd
      obtain ⟨rel, hletter, rfl⟩ := rowKind_eq_ok.1 hkind
      simp only at hadd
      split at hadd
      · cases hadd
      next hnew =>
        rw [hnames] at hnew
        exact ⟨_, .row hletter, allFit_singleton.2 hnew, (Except.ok.inj hadd).symm⟩
    · cases hadd
  · rintro ⟨more, hsaid, hfit, rfl⟩
    cases hsaid with
    | row hletter =>
      refine bind_eq_ok.2 ⟨_, rowKind_eq_ok.2 ⟨_, hletter, rfl⟩, ?_⟩
      rw [if_neg]
      · rfl
      · rw [hnames]
        exact hfit.1

/-- A marker begins or ends a block. -/
lemma mark_eq_ok (pos : Position) {kind : List Char} : m.mark kind = .ok m' ↔
    ∃ opens : Bool, kind = (if opens then "'INTORG'" else "'INTEND'").toList ∧
      m' = m.take pos (.marker opens) := by
  constructor
  · unfold Model.mark
    intro h
    split at h
    next hkind => exact ⟨true, hkind, (Except.ok.inj h).symm⟩
    split at h
    next hkind => exact ⟨false, hkind, (Except.ok.inj h).symm⟩
    next => cases h
  · rintro ⟨opens, rfl, rfl⟩
    cases opens <;> rfl

/-- The second field of a marker is the marker word. -/
lemma marker?_eq_some {fields : List (List Char)} {kind : List Char} :
    Model.marker? fields = some kind ↔ ∃ label word k rest, fields = label :: word :: k :: rest ∧
      upper word = "'MARKER'".toList ∧ kind = upper k := by
  unfold Model.marker?
  split
  next label word k rest =>
    rw [Option.ite_none_right_eq_some]
    constructor
    · rintro ⟨hword, hkind⟩
      exact ⟨label, word, k, rest, rfl, hword, (Option.some.inj hkind).symm⟩
    · rintro ⟨_, _, _, _, heq, hword, rfl⟩
      cases heq
      exact ⟨hword, rfl⟩
  next hshort =>
    refine iff_of_false (fun h => by cases h) ?_
    rintro ⟨label, word, k, rest, rfl, -⟩
    exact hshort label word k rest rfl

/-- A column with entries is no marker if the first row is not named as one. -/
lemma marker?_eq_none {name : List Char} {tokens : List (List Char × List Char)} :
    Model.marker? (name :: fieldsOf tokens) = none ↔
      ∀ p ∈ tokens.head?, upper p.1 ≠ "'MARKER'".toList := by
  cases tokens with
  | nil => simp [fieldsOf, Model.marker?]
  | cons p tokens =>
    constructor
    · intro hnone q hq hword
      obtain rfl := Option.some.inj hq
      cases (if_pos hword).symm.trans hnone
    · exact fun hne => if_neg (hne p rfl)

/-- A column that appears is there. -/
lemma mem_columnsOf_concat (facts : List Fact) (name : String) :
    name ∈ columnsOf (facts ++ [.column name]) := by
  refine List.mem_eraseDups.2 (List.mem_filterMap.2 ⟨.column name, ?_, rfl⟩)
  exact List.mem_append_right _ List.mem_cons_self

/-- A column appears before its entries are added. -/
lemma addColumn_eq (h : Describes facts m) {col : List Char} {entries : List (List Char)}
    (hmarker : Model.marker? (col :: entries) = none)
    (hlength : entries.length = 2 ∨ entries.length = 4) :
    m.addColumn pos (col :: entries) = pairs entries >>= fun tokens =>
      tokens.foldlM (Model.addEntry
        ((columnsOf (facts ++ [.column (.ofList col)])).idxOf (.ofList col)))
        (m.take pos (.column (.ofList col))) := by
  generalize hname : String.ofList col = name
  have hcols : (ensured m.cols name pos).map (·.name) = columnsOf (facts ++ [.column name]) := by
    have hmark : ∀ c : Column,
        ({ c with integer := c.integer || m.integerBlock } : Column).name = c.name := fun _ => rfl
    rw [← h.columns_take pos]
    exact (map_changeNamed hmark).symm
  have hmem := mem_columnsOf_concat facts name
  -- marking a column as integer changes one entry, so it changes the columns of that name
  have hstart : (if m.integerBlock then
        Model.updateColumn { m with cols := ensured m.cols name pos }
          ((columnsOf (facts ++ [.column name])).idxOf name) ({ · with integer := true })
      else .ok { m with cols := ensured m.cols name pos }) = .ok (m.take pos (.column name)) := by
    rw [← hcols, updateColumn_idxOf (hcols ▸ nodup_columnsOf _) (hcols ▸ hmem), Model.take]
    cases m.integerBlock with
    | true => simp
    | false =>
      simp only [Bool.or_false]
      rw [changeNamed_eq_self fun c _ _ => rfl]
      rfl
  have hshort : ¬(entries.length ≠ 2 ∧ entries.length ≠ 4) := by omega
  rw [Model.addColumn.eq_def, hmarker]
  simp only [if_neg hshort, hname, ensure_eq, hcols]
  split
  next hblock =>
    rw [if_pos hblock] at hstart
    rw [hstart]
    rfl
  next hblock =>
    rw [if_neg hblock] at hstart
    rw [← Except.ok.inj hstart]
    rfl

/-- A line of the columns is a marker, or it adds entries of a column. -/
lemma addColumn_eq_ok (h : Describes facts m) {fields : List (List Char)} :
    m.addColumn pos fields = .ok m' ↔ Takes facts pos m m' (DataSays .columns fields) := by
  -- a column may always appear, and its entries follow it
  have hfold : ∀ (col : List Char) tokens, tokens.foldlM (Model.addEntry
        ((columnsOf (facts ++ [.column (.ofList col)])).idxOf (.ofList col)))
        (m.take pos (.column (.ofList col))) = .ok m' ↔
      ∃ values, List.Forall₂ Gives tokens values ∧
        AllFit facts (.column (.ofList col) :: values.map fun v => .entry (.ofList col) v.1 v.2) ∧
        m' = m.takeAll pos
          (.column (.ofList col) :: values.map fun v => .entry (.ofList col) v.1 v.2) := by
    intro col tokens
    have hcolumn : Fact.Fits facts (.column (.ofList col)) := True.intro
    rw [addEntries_eq_ok pos (h.take pos hcolumn) (mem_columnsOf_concat facts _)]
    exact exists_congr fun values => and_congr_right fun _ => and_congr_left fun _ =>
      (and_iff_right hcolumn).symm
  constructor
  · intro hadd
    cases hmarker : Model.marker? fields with
    | some kind =>
      rw [Model.addColumn.eq_def, hmarker] at hadd
      obtain ⟨opens, rfl, rfl⟩ := (mark_eq_ok pos).1 hadd
      obtain ⟨label, word, k, rest, rfl, hword, hkind⟩ := marker?_eq_some.1 hmarker
      exact ⟨_, .marker hword hkind.symm, ⟨True.intro, True.intro⟩, rfl⟩
    | none =>
      cases fields with
      | nil => cases hadd
      | cons col entries =>
        have hlength : entries.length = 2 ∨ entries.length = 4 := by
          by_contra hne
          rw [not_or] at hne
          rw [Model.addColumn, hmarker] at hadd
          simp only [if_pos hne] at hadd
          cases hadd
        rw [h.addColumn_eq hmarker hlength] at hadd
        obtain ⟨tokens, htokens, hentries⟩ := bind_eq_ok.1 hadd
        obtain rfl := pairs_eq_ok.1 htokens
        obtain ⟨values, hvalues, hfit, rfl⟩ := (hfold col tokens).1 hentries
        rw [length_fieldsOf] at hlength
        exact ⟨_, .column (marker?_eq_none.1 hmarker) (by omega) hvalues, hfit, rfl⟩
  · rintro ⟨more, hsaid, hfit, rfl⟩
    cases hsaid with
    | marker hword hkind =>
      rw [Model.addColumn, marker?_eq_some.2 ⟨_, _, _, _, rfl, hword, hkind.symm⟩]
      exact (mark_eq_ok pos).2 ⟨_, rfl, rfl⟩
    | column hmarker hlength hvalues =>
      rw [h.addColumn_eq (marker?_eq_none.2 hmarker) (by rw [length_fieldsOf]; omega)]
      exact bind_eq_ok.2 ⟨_, pairs_eq_ok.2 rfl, (hfold _ _).2 ⟨_, hvalues, hfit, rfl⟩⟩

/-- The parity of the fields tells whether the name of a set stands in front of the pairs. -/
lemma numbers_eq_fieldsOf_iff {fields : List (List Char)}
    {tokens : List (List Char × List Char)} :
    (if fields.length % 2 = 1 then fields.tail else fields) = fieldsOf tokens ↔
      fields = fieldsOf tokens ∨ ∃ set, fields = set :: fieldsOf tokens := by
  have heven : (fieldsOf tokens).length % 2 = 0 := by
    rw [length_fieldsOf]
    omega
  constructor
  · intro h
    split at h
    next hodd =>
      cases fields with
      | nil => cases hodd
      | cons set rest => exact .inr ⟨set, congrArg (set :: ·) h⟩
    next => exact .inl h
  · rintro (rfl | ⟨set, rfl⟩)
    · rw [if_neg (by omega)]
    · rw [if_pos (by rw [List.length_cons]; omega), List.tail_cons]

/-- A line of the right-hand sides sets them. -/
lemma addRhs_eq_ok (h : Describes facts m) {fields : List (List Char)} :
    m.addRhs fields = .ok m' ↔ Takes facts pos m m' (DataSays .rhs fields) := by
  have hfold : ∀ tokens, tokens.foldlM Model.setRhs m = .ok m' ↔
      ∃ values, List.Forall₂ Gives tokens values ∧
        AllFit facts (values.map fun v => .rhs v.1 v.2) ∧
        m' = m.takeAll pos (values.map fun v => .rhs v.1 v.2) := fun tokens =>
    foldlM_eq_ok (fun v => .rhs v.1 v.2) (fun _ => True) (fun _ _ _ => True.intro)
      (fun h _ => h.setRhs_eq_ok) h True.intro
  have hempty : ∀ tokens, (fieldsOf tokens).isEmpty = true ↔ tokens = [] := by
    intro tokens
    cases tokens <;> simp [fieldsOf]
  have hadd : ∀ numbers, (if fields.length % 2 = 1 then fields.tail else fields) = numbers →
      m.addRhs fields = if numbers.isEmpty then .error .noPairs else
        pairs numbers >>= fun tokens => tokens.foldlM Model.setRhs m := by
    rintro numbers rfl
    rfl
  constructor
  · intro hm'
    obtain ⟨numbers, hnumbers⟩ :
        ∃ numbers, (if fields.length % 2 = 1 then fields.tail else fields) = numbers := ⟨_, rfl⟩
    rw [hadd numbers hnumbers] at hm'
    split at hm'
    · cases hm'
    next hne =>
      obtain ⟨tokens, htokens, hm'⟩ := bind_eq_ok.1 hm'
      obtain ⟨values, hvalues, hfit, rfl⟩ := (hfold tokens).1 hm'
      obtain rfl := pairs_eq_ok.1 htokens
      rw [hempty] at hne
      rcases numbers_eq_fieldsOf_iff.1 hnumbers with rfl | ⟨set, rfl⟩
      · exact ⟨_, .rhs hne hvalues, hfit, rfl⟩
      · exact ⟨_, .rhsOfSet hne hvalues, hfit, rfl⟩
  · rintro ⟨more, hsaid, hfit, rfl⟩
    cases hsaid with
    | rhs hne hvalues =>
      rw [hadd _ (numbers_eq_fieldsOf_iff.2 (.inl rfl)), if_neg (by rwa [hempty])]
      exact bind_eq_ok.2 ⟨_, pairs_eq_ok.2 rfl, (hfold _).2 ⟨_, hvalues, hfit, rfl⟩⟩
    | rhsOfSet hne hvalues =>
      rw [hadd _ (numbers_eq_fieldsOf_iff.2 (.inr ⟨_, rfl⟩)), if_neg (by rwa [hempty])]
      exact bind_eq_ok.2 ⟨_, pairs_eq_ok.2 rfl, (hfold _).2 ⟨_, hvalues, hfit, rfl⟩⟩

/-- A bound of a column that there is is accepted. -/
lemma addBound_eq (h : Describes facts m) (pos : Position) {keyword col : List Char}
    {fields : List (List Char)} {token : Option (List Char)} {kind : BoundKind} {value : Option Coeff}
    (hkeyword : upper keyword = kind.word.toList)
    (hfields : Model.boundFields kind.word.toList fields = .ok (col, token))
    (hvalue : token.elim (.ok none) Model.readBound = .ok value)
    (hcol : .ofList col ∈ columnsOf facts) :
    m.addBound (keyword :: fields) = .ok (m.take pos (.bound kind (.ofList col) value)) := by
  rw [← hkeyword] at hfields
  refine bind_eq_ok.2 ⟨_, hfields, ?_⟩
  simp only [h.number?_eq_some.2 ⟨hcol, rfl⟩]
  have haction : Model.boundAction (upper keyword) value = .ok (kind.change value) :=
    boundAction_eq_ok.2 ⟨kind, hkeyword, rfl⟩
  cases token with
  | none => exact bind_eq_ok.2 ⟨_, hvalue, bind_eq_ok.2 ⟨_, haction, h.updateColumn_eq hcol _⟩⟩
  | some token =>
    exact bind_eq_ok.2 ⟨_, hvalue, bind_eq_ok.2 ⟨_, haction, h.updateColumn_eq hcol _⟩⟩

/-- A line of the bounds changes a column. -/
lemma addBound_eq_ok (h : Describes facts m) {fields : List (List Char)} :
    m.addBound fields = .ok m' ↔ Takes facts pos m m' (DataSays .bounds fields) := by
  constructor
  · intro hadd
    cases fields with
    | nil => cases hadd
    | cons keyword fields =>
      obtain ⟨⟨col, token⟩, hfields, hrest⟩ := bind_eq_ok.1 hadd
      simp only at hrest
      split at hrest
      · cases hrest
      next n hn =>
        have hmem := (h.number?_eq_some.1 hn).1
        -- whether there is a value or not, it is read first and then the keyword decides
        have hset : ∃ value f, token.elim (.ok none) Model.readBound = .ok value ∧
            Model.boundAction (upper keyword) value = .ok f := by
          cases token with
          | none =>
            obtain ⟨value, hvalue, hrest⟩ := bind_eq_ok.1 hrest
            obtain ⟨f, hf, -⟩ := bind_eq_ok.1 hrest
            exact ⟨value, f, hvalue, hf⟩
          | some token =>
            obtain ⟨value, hvalue, hrest⟩ := bind_eq_ok.1 hrest
            obtain ⟨f, hf, -⟩ := bind_eq_ok.1 hrest
            exact ⟨value, f, hvalue, hf⟩
        obtain ⟨value, f, hvalue, hf⟩ := hset
        obtain ⟨kind, hkeyword, -⟩ := boundAction_eq_ok.1 hf
        rw [hkeyword] at hfields
        rw [h.addBound_eq pos hkeyword hfields hvalue hmem] at hadd
        obtain rfl := Except.ok.inj hadd
        obtain ⟨htoken, rfl | ⟨set, rfl⟩⟩ := boundFields_eq_ok.1 hfields
        · exact ⟨_, .bound hkeyword htoken hvalue, allFit_singleton.2 hmem, rfl⟩
        · exact ⟨_, .boundOfSet hkeyword htoken hvalue, allFit_singleton.2 hmem, rfl⟩
  · rintro ⟨more, hsaid, hfit, rfl⟩
    cases hsaid with
    | bound hkeyword htoken hvalue =>
      exact h.addBound_eq pos hkeyword (boundFields_eq_ok.2 ⟨htoken, .inl rfl⟩) hvalue hfit.1
    | boundOfSet hkeyword htoken hvalue =>
      exact h.addBound_eq pos hkeyword (boundFields_eq_ok.2 ⟨htoken, .inr ⟨_, rfl⟩⟩) hvalue hfit.1

/-- A line of data is taken for what its fields say in the section where it stands. -/
lemma addData_eq_ok (h : Describes facts m) {fields : List (List Char)} :
    m.addData pos fields = .ok m' ↔ Takes facts pos m m' (DataSays m.part fields) := by
  unfold Model.addData
  cases hpart : m.part with
  | preamble | name | finished =>
    -- no data stands before the first section, in that of the name or behind the end
    refine iff_of_false (fun h => by cases h) ?_
    rintro ⟨_, ⟨⟩, -⟩
  | sense =>
    constructor
    · intro hadd
      simp only at hadd
      split at hadd
      · cases hadd
      · obtain ⟨d, hd, hadd⟩ := bind_eq_ok.1 hadd
        rw [← hpart] at hadd
        exact ⟨_, .sense hd, ⟨True.intro, True.intro⟩, (Except.ok.inj hadd).symm⟩
    · rintro ⟨_, hsaid, -, rfl⟩
      cases hsaid with
      | sense hd =>
        refine bind_eq_ok.2 ⟨_, hd, ?_⟩
        rw [← hpart]
        rfl
  | rows => exact h.addRow_eq_ok
  | columns => exact h.addColumn_eq_ok
  | rhs => exact h.addRhs_eq_ok
  | bounds => exact h.addBound_eq_ok

end Describes

/-! ## Lines -/

/-- What stands behind a keyword can follow anything. -/
lemma HeaderSays.allFit {part : Section} {rest : List Char} {more : List Fact}
    (h : HeaderSays part rest more) (facts : List Fact) : AllFit facts more := by
  cases h with
  | bare => exact True.intro
  | untitled => exact ⟨True.intro, True.intro⟩
  | title => exact ⟨True.intro, True.intro⟩
  | sense => exact ⟨True.intro, True.intro⟩
  | ending => exact True.intro

/-- A section begins, with what stands behind its keyword. -/
lemma addHeader_eq_ok (pos : Position) {cs : List Char} : m.addHeader cs = .ok m' ↔
    ∃ keyword rest part more, (splitFirst isBlank cs).getD (cs, []) = (keyword, rest) ∧
      Model.readKeyword keyword = .ok part ∧ HeaderSays part (trim rest) more ∧
      m' = m.takeAll pos (.part part :: more) := by
  unfold Model.addHeader
  generalize (splitFirst isBlank cs).getD (cs, []) = r
  obtain ⟨keyword, rest⟩ := r
  simp only
  constructor
  · intro hadd
    obtain ⟨part, hpart, hadd⟩ := bind_eq_ok.1 hadd
    refine ⟨keyword, rest, part, ?_⟩
    generalize trim rest = word at hadd ⊢
    simp only [List.isEmpty_iff] at hadd
    -- a name and a direction may stand behind their keywords, and nothing behind others
    cases part with
    | name =>
      obtain rfl := Except.ok.inj hadd
      by_cases hword : word = []
      · subst hword
        exact ⟨_, rfl, hpart, .untitled, rfl⟩
      · rw [if_neg hword]
        exact ⟨_, rfl, hpart, .title hword, rfl⟩
    | finished =>
      obtain rfl := Except.ok.inj hadd
      by_cases hword : word = []
      · subst hword
        exact ⟨_, rfl, hpart, .bare (by decide), rfl⟩
      · exact ⟨_, rfl, hpart, .ending hword, rfl⟩
    | sense =>
      simp only at hadd
      split at hadd
      next hword =>
        obtain rfl := Except.ok.inj hadd
        subst hword
        exact ⟨_, rfl, hpart, .bare (by decide), rfl⟩
      next hword =>
        obtain ⟨d, hd, hadd⟩ := bind_eq_ok.1 hadd
        obtain rfl := Except.ok.inj hadd
        exact ⟨_, rfl, hpart, .sense hword hd, rfl⟩
    | preamble | rows | columns | rhs | bounds =>
      simp only at hadd
      split at hadd
      next hword =>
        obtain rfl := Except.ok.inj hadd
        subst hword
        exact ⟨_, rfl, hpart, .bare (by decide), rfl⟩
      next => cases hadd
  · rintro ⟨keyword', rest', part, more, heq, hpart, hrest, rfl⟩
    obtain ⟨rfl, rfl⟩ := Prod.mk.inj heq
    refine bind_eq_ok.2 ⟨part, hpart, ?_⟩
    generalize trim rest = word at hrest ⊢
    cases hrest with
    | bare hname => cases part <;> first | rfl | exact absurd rfl hname
    | untitled => rfl
    | title hne => simp only [List.isEmpty_iff, if_neg hne]; rfl
    | sense hne hrest =>
      simp only [List.isEmpty_iff, if_neg hne]
      exact bind_eq_ok.2 ⟨_, hrest, rfl⟩
    | ending hne => rfl

/-- A line that is neither blank nor a comment holds data if it begins with white space. -/
lemma addText_of_cons {text : String} {c : Char} {cs : List Char}
    (htext : trimRight text.toList = c :: cs) (hc : c ≠ '*') : m.addText pos text =
      if isBlank c then m.addData pos (words (c :: cs)) else m.addHeader (c :: cs) := by
  simp only [Model.addText, htext]

/-- A line is accepted exactly if it says facts that can follow those before, and these are what the
reader takes. -/
lemma Describes.addText_eq_ok (h : Describes facts m) {text : String} :
    m.addText pos text = .ok m' ↔ Takes facts pos m m' (Says m.part text) := by
  constructor
  · intro hadd
    cases htext : trimRight text.toList with
    | nil =>
      simp only [Model.addText, htext] at hadd
      exact ⟨[], .blank htext, True.intro, (Except.ok.inj hadd).symm⟩
    | cons c cs =>
      by_cases hstar : c = '*'
      · subst hstar
        simp only [Model.addText, htext] at hadd
        exact ⟨[], .comment htext, True.intro, (Except.ok.inj hadd).symm⟩
      rw [addText_of_cons htext hstar] at hadd
      split at hadd
      next hc =>
        obtain ⟨more, hsaid, hfit, rfl⟩ := h.addData_eq_ok.1 hadd
        exact ⟨more, .data htext hc hsaid, hfit, rfl⟩
      next hc =>
        obtain ⟨keyword, rest, part, more, hsplit, hkeyword, hrest, rfl⟩ :=
          (addHeader_eq_ok pos).1 hadd
        exact ⟨_, .header htext (Bool.eq_false_iff.2 hc) hstar hsplit hkeyword hrest,
          ⟨True.intro, hrest.allFit _⟩, rfl⟩
  · rintro ⟨more, hsaid, hfit, rfl⟩
    cases hsaid with
    | blank htext =>
      simp only [Model.addText, htext]
      rfl
    | comment htext =>
      simp only [Model.addText, htext]
      rfl
    | data htext hc hfields =>
      have hstar : isBlank '*' = false := by decide
      rw [addText_of_cons htext (by rintro rfl; simp [hc] at hstar), if_pos hc]
      exact h.addData_eq_ok.2 ⟨_, hfields, hfit, rfl⟩
    | header htext hc hcomment hsplit hkeyword hrest =>
      rw [addText_of_cons htext hcomment, if_neg (Bool.eq_false_iff.1 hc)]
      exact (addHeader_eq_ok pos).2 ⟨_, _, _, _, hsplit, hkeyword, hrest, rfl⟩

end LinearInterchange.Mps
