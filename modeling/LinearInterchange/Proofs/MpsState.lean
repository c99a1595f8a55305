import LinearInterchange.Proofs.MpsFacts

/-!
# What the reader of free MPS keeps

The reader of free MPS keeps the rows and the columns of a file, and knows them by number.  What it
keeps is described by the facts that were said so far (`Describes`).  Every fact that can follow
them changes it in a way of its own (`Model.take`), and what comes out is described by the facts
with the new one (`Describes.take`).
-/

namespace LinearInterchange.Mps

open Text Table

variable {m m' : Model} {facts : List Fact} {fact : Fact} {pos : Position}

/-! ## Facts one after another -/

/-- The section after more facts. -/
lemma sectionAfter_append (part : Section) (facts more : List Fact) :
    sectionAfter part (facts ++ more) = sectionAfter (sectionAfter part facts) more := by
  rw [sectionAfter, List.filterMap_append, List.getLast?_append, sectionAfter, sectionAfter]
  cases (more.filterMap Fact.part?).getLast? <;> rfl

section Concat

variable (facts : List Fact) (fact : Fact)

lemma titleOf_concat : titleOf (facts ++ [fact]) = fact.title?.getD (titleOf facts) := by
  rw [titleOf, List.filterMap_append, List.getLast?_append, titleOf, List.filterMap_cons]
  cases fact.title? <;> rfl

lemma directionOf_concat :
    directionOf (facts ++ [fact]) = fact.direction?.getD (directionOf facts) := by
  rw [directionOf, List.filterMap_append, List.getLast?_append, directionOf, List.filterMap_cons]
  cases fact.direction? <;> rfl

lemma inBlock_concat : inBlock (facts ++ [fact]) = fact.marker?.getD (inBlock facts) := by
  rw [inBlock, List.filterMap_append, List.getLast?_append, inBlock, List.filterMap_cons]
  cases fact.marker? <;> rfl

lemma rhsOf_concat (row : String) :
    rhsOf (facts ++ [fact]) row = (fact.rhsOf? row).getD (rhsOf facts row) := by
  rw [rhsOf, List.filterMap_append, List.getLast?_append, rhsOf, List.filterMap_cons]
  cases fact.rhsOf? row <;> rfl

lemma rowsOf_concat : rowsOf (facts ++ [fact]) = rowsOf facts ++ fact.row?.toList := by
  rw [rowsOf, List.filterMap_append, rowsOf, List.filterMap_cons]
  cases fact.row? <;> rfl

lemma entriesOf_concat (row : String) :
    entriesOf (facts ++ [fact]) row = entriesOf facts row ++ (fact.entryIn? row).toList := by
  rw [entriesOf, List.filterMap_append, entriesOf, List.filterMap_cons]
  cases fact.entryIn? row <;> rfl

lemma boundsOf_concat (column : String) :
    boundsOf (facts ++ [fact]) column = fact.bind column (boundsOf facts column) := by
  rw [boundsOf, List.foldl_append]
  rfl

lemma columnsOf_concat : columnsOf (facts ++ [fact]) =
    fact.column?.elim (columnsOf facts) fun c =>
      if c ∈ columnsOf facts then columnsOf facts else columnsOf facts ++ [c] := by
  rw [columnsOf, List.filterMap_append, List.eraseDups_append, columnsOf, List.filterMap_cons]
  generalize facts.filterMap Fact.column? = cs
  cases fact.column? with
  | none => exact List.append_nil _
  | some c =>
    show _ = if c ∈ cs.eraseDups then cs.eraseDups else cs.eraseDups ++ [c]
    simp only [List.mem_eraseDups]
    by_cases hc : c ∈ cs
    · simp [List.removeAll, hc]
    · simp [List.removeAll, hc, List.eraseDups_cons]

lemma firstObjective?_concat : firstObjective? (facts ++ [fact]) =
    (firstObjective? facts).or ((fact.row?.filter (·.1.isNone)).map (·.2)) := by
  rw [firstObjective?, rowsOf_concat, List.find?_append, firstObjective?]
  cases (rowsOf facts).find? (·.1.isNone) with
  | some r => rfl
  | none =>
    cases fact.row? with
    | none => rfl
    | some r => simp [Option.filter]

end Concat

/-- A column appears only once among the columns. -/
lemma nodup_columnsOf (facts : List Fact) : (columnsOf facts).Nodup := by
  induction facts using List.reverseRecOn with
  | nil => exact List.nodup_nil
  | append_singleton facts fact ih =>
    rw [columnsOf_concat]
    cases fact.column? with
    | none => exact ih
    | some c =>
      rw [Option.elim_some]
      split
      · exact ih
      next hnew =>
        rw [← List.concat_eq_append]
        exact ih.concat hnew

/-- A column is marked as integer by earlier facts or by the last one. -/
lemma markedInteger_concat {column : String} : MarkedInteger (facts ++ [fact]) column ↔
    MarkedInteger facts column ∨ fact = .column column ∧ inBlock facts = true ∨
      ∃ kind value, fact = .bound kind column value ∧ kind.isInteger = true := by
  constructor
  · rintro (⟨before, after, hsplit, hblock⟩ | ⟨kind, value, hmem, hkind⟩)
    · -- the line of the column is the last one, or there is a last one behind it
      rcases List.eq_nil_or_concat after with rfl | ⟨after, last, rfl⟩
      · obtain ⟨rfl, hlast⟩ := List.append_inj' hsplit rfl
        exact .inr (.inl ⟨(List.cons.inj hlast).1, hblock⟩)
      · rw [List.concat_eq_append, ← List.cons_append, ← List.append_assoc] at hsplit
        obtain ⟨rfl, -⟩ := List.append_inj' hsplit rfl
        exact .inl (.inl ⟨before, after, rfl, hblock⟩)
    · rcases List.mem_append.1 hmem with hmem | hmem
      · exact .inl (.inr ⟨kind, value, hmem, hkind⟩)
      · exact .inr (.inr ⟨kind, value, (List.mem_singleton.1 hmem).symm, hkind⟩)
  · rintro ((⟨before, after, rfl, hblock⟩ | ⟨kind, value, hmem, hkind⟩) | ⟨rfl, hblock⟩ |
      ⟨kind, value, rfl, hkind⟩)
    · exact .inl ⟨before, after ++ [fact], List.append_assoc _ _ _, hblock⟩
    · exact .inr ⟨kind, value, List.mem_append_left _ hmem, hkind⟩
    · exact .inl ⟨facts, [], rfl, hblock⟩
    · exact .inr ⟨kind, value, List.mem_append_right _ List.mem_cons_self, hkind⟩

/-! ## What is known by name -/

section Named

variable {α : Type} {nameOf : α → String} {name : String} {l : List α} {n : ℕ}

/-- Changes what has a given name. -/
def changeNamed (nameOf : α → String) (name : String) (f : α → α) (l : List α) : List α :=
  l.map fun a => if nameOf a = name then f a else a

/-- What is looked up by its name is found at the place of the name. -/
lemma findIdx?_name : l.findIdx? (nameOf · = name) = some n ↔
    name ∈ l.map nameOf ∧ n = (l.map nameOf).idxOf name := by
  induction l generalizing n with
  | nil => simp
  | cons a l ih =>
    rw [List.findIdx?_cons, List.map_cons, List.idxOf_cons, List.mem_cons]
    by_cases h : nameOf a = name
    · simp [h, eq_comm]
    · have hne : (nameOf a == name) = false := beq_false_of_ne h
      simp only [h, decide_false, Bool.false_eq_true, if_false, Option.map_eq_some_iff, ih, hne,
        cond_false, Ne.symm h, false_or]
      constructor
      · rintro ⟨k, ⟨hmem, rfl⟩, rfl⟩
        exact ⟨hmem, rfl⟩
      · rintro ⟨hmem, rfl⟩
        exact ⟨_, ⟨hmem, rfl⟩, rfl⟩

/-- To change what stands at the place of a name is to change what has the name. -/
lemma modify_eq_changeNamed (hnodup : (l.map nameOf).Nodup) (hmem : name ∈ l.map nameOf)
    (f : α → α) : l.modify ((l.map nameOf).idxOf name) f = changeNamed nameOf name f l := by
  induction l with
  | nil => cases hmem
  | cons a l ih =>
    rw [List.map_cons, List.nodup_cons] at hnodup
    rw [List.map_cons, List.idxOf_cons, changeNamed, List.map_cons]
    by_cases h : nameOf a = name
    · -- no other one has the name
      have hrest : ∀ b ∈ l, (if nameOf b = name then f b else b) = b := by
        intro b hb
        rw [if_neg]
        rintro hname
        exact hnodup.1 (h.trans hname.symm ▸ List.mem_map_of_mem hb)
      rw [beq_iff_eq.2 h, cond_true, List.modify_zero_cons, if_pos h,
        List.map_congr_left hrest, List.map_id']
    · rw [List.map_cons, List.mem_cons] at hmem
      rw [beq_false_of_ne h, cond_false, List.modify_succ_cons, if_neg h,
        ih hnodup.2 (hmem.resolve_left (Ne.symm h)), changeNamed]

/-- What a change does to others does not matter. -/
lemma changeNamed_congr {f g : α → α} (h : ∀ a ∈ l, nameOf a = name → f a = g a) :
    changeNamed nameOf name f l = changeNamed nameOf name g l := by
  refine List.map_congr_left fun a ha => ?_
  split
  next hname => exact h a ha hname
  next => rfl

/-- A change that leaves what has the name as it is changes nothing. -/
lemma changeNamed_eq_self {f : α → α} (h : ∀ a ∈ l, nameOf a = name → f a = a) :
    changeNamed nameOf name f l = l := by
  rw [changeNamed_congr (g := id) h, changeNamed]
  simp

/-- A change that keeps the names keeps the list of names. -/
lemma map_changeNamed {f : α → α} (hf : ∀ a, nameOf (f a) = nameOf a) :
    (changeNamed nameOf name f l).map nameOf = l.map nameOf := by
  rw [changeNamed, List.map_map]
  refine List.map_congr_left fun a _ => ?_
  rw [Function.comp_apply]
  split
  · exact hf a
  · rfl

end Named

/-! ## What the reader keeps -/

/-- What a row is for. -/
def rowKindOf (facts : List Fact) : Option Relation × String → RowKind
  | (some rel, _) => .constr rel
  | (none, name) => if firstObjective? facts = some name then .objective else .free

/-- The row that the reader keeps for a row of the file. -/
def rowOf (facts : List Fact) (row : Option Relation × String) : Row where
  name := row.2
  kind := rowKindOf facts row
  entries := (entriesOf facts row.2).map fun e => ⟨(columnsOf facts).idxOf e.1, e.2⟩
  rhs := if row.1.isSome then rhsOf facts row.2 else 0

/-- The columns have the same bounds. -/
structure SameBounds (c c' : Column) : Prop where
  binary : c.binary = c'.binary
  lower : c.lower = c'.lower
  upper : c.upper = c'.upper

/-- The fact speaks of rows and columns that there are. -/
def Fact.Known (facts : List Fact) : Fact → Prop
  | .entry col r _ => col ∈ columnsOf facts ∧ r ∈ (rowsOf facts).map (·.2)
  | .rhs r _ => r ∈ (rowsOf facts).map (·.2)
  | .bound _ col _ => col ∈ columnsOf facts
  | _ => True

/-- The facts describe what the reader keeps. -/
structure Describes (facts : List Fact) (m : Model) : Prop where
  part : m.part = sectionAfter .preamble facts
  name : m.name = titleOf facts
  direction : m.direction = directionOf facts
  block : m.integerBlock = inBlock facts
  rows : m.rows = (rowsOf facts).map (rowOf facts)
  /-- No row is named twice. -/
  apart : ((rowsOf facts).map (·.2)).Nodup
  columns : m.cols.map (·.name) = columnsOf facts
  integer : ∀ c ∈ m.cols, c.integer = true ↔ MarkedInteger facts c.name
  bounds : ∀ c ∈ m.cols, SameBounds c (boundsOf facts c.name)
  known : ∀ fact ∈ facts, fact.Known facts

/-- The columns with one of a given name, which is new if there was none. -/
def ensured (cols : Columns) (name : String) (pos : Position) : Columns :=
  if name ∈ cols.map (·.name) then cols else cols ++ [({ name, pos } : Column)]

/-- What a new row is for. -/
def Model.kindFor (m : Model) : Option Relation → RowKind
  | some rel => .constr rel
  | none => if m.rows.any (·.kind = .objective) then .free else .objective

/-- What a fact changes. -/
def Model.take (pos : Position) (m : Model) : Fact → Model
  | .part s => { m with part := s }
  | .title name => { m with name }
  | .direction direction => { m with direction }
  | .row rel name => { m with rows := m.rows ++ [{ name, kind := m.kindFor rel }] }
  | .marker opens => { m with integerBlock := opens }
  | .column name =>
    let mark (c : Column) := { c with integer := c.integer || m.integerBlock }
    { m with cols := changeNamed (·.name) name mark (ensured m.cols name pos) }
  | .entry col r value =>
    let entry := ⟨(m.cols.map (·.name)).idxOf col, value⟩
    let add (row : Row) := { row with entries := row.entries ++ [entry] }
    { m with rows := changeNamed (·.name) r add m.rows }
  | .rhs r value =>
    let set (row : Row) :=
      match row.kind with
      | .constr _ => { row with rhs := value }
      | _ => row
    { m with rows := changeNamed (·.name) r set m.rows }
  | .bound kind col value =>
    { m with cols := changeNamed (·.name) col (kind.change value) m.cols }

/-- What facts change one after another. -/
def Model.takeAll (pos : Position) (m : Model) (facts : List Fact) : Model :=
  facts.foldl (Model.take pos) m

/-! ## What is known stays known -/

/-- Columns are added at the end. -/
lemma columnsOf_isPrefix (facts : List Fact) (fact : Fact) :
    columnsOf facts <+: columnsOf (facts ++ [fact]) := by
  rw [columnsOf_concat]
  cases fact.column? with
  | none => exact List.prefix_refl _
  | some c =>
    rw [Option.elim_some]
    split
    · exact List.prefix_refl _
    · exact List.prefix_append _ _

/-- A column keeps its place. -/
lemma idxOf_columnsOf_concat {column : String} (h : column ∈ columnsOf facts) :
    (columnsOf (facts ++ [fact])).idxOf column = (columnsOf facts).idxOf column := by
  obtain ⟨more, hmore⟩ := columnsOf_isPrefix facts fact
  rw [← hmore, List.idxOf_append_of_mem h]

/-- A row that there is stays. -/
lemma mem_rows_concat (fact : Fact) {row : String} (h : row ∈ (rowsOf facts).map (·.2)) :
    row ∈ (rowsOf (facts ++ [fact])).map (·.2) := by
  rw [rowsOf_concat, List.map_append]
  exact List.mem_append_left _ h

/-- What is known stays known. -/
lemma Fact.Known.concat {last : Fact} (h : fact.Known facts) : fact.Known (facts ++ [last]) := by
  cases fact with
  | entry col r value => exact ⟨(columnsOf_isPrefix _ _).subset h.1, mem_rows_concat _ h.2⟩
  | rhs r value => exact mem_rows_concat last h
  | bound kind col value => exact (columnsOf_isPrefix _ _).subset h
  | part | title | direction | row | marker | column => exact True.intro

/-- A fact that can follow speaks of what is known. -/
lemma Fact.Fits.known (h : fact.Fits facts) : fact.Known facts := by
  cases fact with
  | entry col r value => exact h
  | rhs r value => exact h.1
  | bound kind col value => exact h
  | part | title | direction | row | marker | column => exact True.intro

section Known

variable (hknown : ∀ fact ∈ facts, fact.Known facts)
include hknown

/-- Entries are those of columns and rows that there are. -/
lemma known_of_mem_entriesOf {row : String} {e : String × Coeff} (he : e ∈ entriesOf facts row) :
    e.1 ∈ columnsOf facts ∧ row ∈ (rowsOf facts).map (·.2) := by
  obtain ⟨fact, hmem, hfact⟩ := List.mem_filterMap.1 he
  cases fact with
  | entry col r value =>
    simp only [Fact.entryIn?, Option.ite_none_right_eq_some, Option.some.injEq] at hfact
    obtain ⟨rfl, rfl⟩ := hfact
    exact hknown _ hmem
  | part | title | direction | row | marker | column | rhs | bound => cases hfact

/-- A row that there is not has no entries. -/
lemma entriesOf_eq_nil {row : String} (h : row ∉ (rowsOf facts).map (·.2)) :
    entriesOf facts row = [] := by
  rw [List.eq_nil_iff_forall_not_mem]
  exact fun e he => h (known_of_mem_entriesOf hknown he).2

/-- A row that there is not has no right-hand side. -/
lemma rhsOf_eq_zero {row : String} (h : row ∉ (rowsOf facts).map (·.2)) :
    rhsOf facts row = 0 := by
  have hnone : facts.filterMap (Fact.rhsOf? row) = [] := by
    rw [List.filterMap_eq_nil_iff]
    intro fact hmem
    cases fact with
    | rhs r value =>
      refine if_neg ?_
      rintro rfl
      exact h (hknown _ hmem)
    | part | title | direction | row | marker | column | entry | bound => rfl
  rw [rhsOf, hnone]
  rfl

/-- A column that there is not has the bounds of every column. -/
lemma boundsOf_eq {column : String} (h : column ∉ columnsOf facts) :
    boundsOf facts column = { name := column, pos := ⟨0, 0⟩ } := by
  have hkeep : ∀ fact ∈ facts, ∀ c, fact.bind column c = c := by
    intro fact hmem c
    cases fact with
    | bound kind col value =>
      refine if_neg ?_
      rintro rfl
      exact h (hknown _ hmem)
    | part | title | direction | row | marker | column | entry | rhs => rfl
  rw [boundsOf]
  clear h hknown
  induction facts with
  | nil => rfl
  | cons fact facts ih =>
    rw [List.foldl_cons, hkeep fact List.mem_cons_self]
    exact ih fun fact hmem => hkeep fact (List.mem_cons_of_mem _ hmem)

/-- A column that is marked as integer is there. -/
lemma MarkedInteger.mem_columnsOf {column : String} (h : MarkedInteger facts column) :
    column ∈ columnsOf facts := by
  rcases h with ⟨before, after, rfl, -⟩ | ⟨kind, value, hmem, -⟩
  · refine List.mem_eraseDups.2 (List.mem_filterMap.2 ⟨.column column, ?_, rfl⟩)
    exact List.mem_append_right _ List.mem_cons_self
  · exact hknown _ hmem

end Known

/-! ## A fact is taken -/

lemma BoundKind.change_name (kind : BoundKind) (value : Option Coeff) (c : Column) :
    (kind.change value c).name = c.name := by
  cases kind <;> rfl

lemma BoundKind.change_integer (kind : BoundKind) (value : Option Coeff) (c : Column) :
    (kind.change value c).integer = (c.integer || kind.isInteger) := by
  cases kind <;> simp [change, isInteger, Column.setBinary]

/-- The bounds of a changed column are those of the column, changed. -/
lemma SameBounds.change {c c' : Column} (h : SameBounds c c') (kind : BoundKind)
    (value : Option Coeff) : SameBounds (kind.change value c) (kind.change value c') := by
  obtain ⟨hbinary, hlower, hupper⟩ := h
  cases kind <;> exact ⟨by first | rfl | exact hbinary, by first | rfl | exact hlower,
    by first | rfl | exact hupper⟩

namespace Describes

/-- The columns are those of the facts, with a column that is taken. -/
lemma columns_take (h : Describes facts m) (pos : Position) (fact : Fact) :
    (m.take pos fact).cols.map (·.name) = columnsOf (facts ++ [fact]) := by
  rw [columnsOf_concat]
  cases fact with
  | column name =>
    have hmark : ∀ c : Column,
        ({ c with integer := c.integer || m.integerBlock } : Column).name = c.name := fun _ => rfl
    simp only [Model.take, Fact.column?, Option.elim_some]
    rw [map_changeNamed hmark, ← h.columns, ensured]
    split
    · rfl
    · rw [List.map_append]
      rfl
  | bound kind col value =>
    simp only [Model.take]
    rw [map_changeNamed (kind.change_name value)]
    exact h.columns
  | part | title | direction | row | marker | entry | rhs => exact h.columns

/-- A column that appears is as the facts before say, whether it is new or not. -/
lemma of_mem_ensured (h : Describes facts m) {name : String} {c : Column}
    (hc : c ∈ ensured m.cols name pos) :
    (c.integer = true ↔ MarkedInteger facts c.name) ∧ SameBounds c (boundsOf facts c.name) := by
  unfold ensured at hc
  split at hc
  · exact ⟨h.integer c hc, h.bounds c hc⟩
  next hnew =>
    rw [h.columns] at hnew
    rcases List.mem_append.1 hc with hc | hc
    · exact ⟨h.integer c hc, h.bounds c hc⟩
    · obtain rfl := List.mem_singleton.1 hc
      refine ⟨⟨fun h => (by cases h), fun hmarked => ?_⟩, ?_⟩
      · exact absurd (hmarked.mem_columnsOf h.known) hnew
      · rw [boundsOf_eq h.known hnew]
        exact ⟨rfl, rfl, rfl⟩

/-- The columns that are integer are those that are marked so, with a column or a bound that is
taken. -/
lemma integer_take (h : Describes facts m) (pos : Position) (fact : Fact) :
    ∀ c ∈ (m.take pos fact).cols,
      (c.integer = true ↔ MarkedInteger (facts ++ [fact]) c.name) := by
  intro c hc
  rw [markedInteger_concat]
  cases fact with
  | column name =>
    obtain ⟨b, hb, rfl⟩ := List.mem_map.1 hc
    have hold := (h.of_mem_ensured hb).1
    split
    next hname => simp [hold, hname, h.block]
    next hname => simp [hold, Ne.symm hname]
  | bound kind col value =>
    obtain ⟨b, hb, rfl⟩ := List.mem_map.1 hc
    have hold := h.integer b hb
    split
    next hname => simp [kind.change_integer, kind.change_name, hold, hname]
    next hname => simp [hold, Ne.symm hname]
  | part | title | direction | row | marker | entry | rhs => simpa using h.integer c hc

/-- The bounds of columns are those of the facts, with a column or a bound that is taken. -/
lemma bounds_take (h : Describes facts m) (pos : Position) (fact : Fact) :
    ∀ c ∈ (m.take pos fact).cols, SameBounds c (boundsOf (facts ++ [fact]) c.name) := by
  intro c hc
  rw [boundsOf_concat]
  cases fact with
  | column name =>
    obtain ⟨b, hb, rfl⟩ := List.mem_map.1 hc
    have hold := (h.of_mem_ensured hb).2
    split
    · exact ⟨hold.binary, hold.lower, hold.upper⟩
    · exact hold
  | bound kind col value =>
    obtain ⟨b, hb, rfl⟩ := List.mem_map.1 hc
    have hold := h.bounds b hb
    split
    next hname =>
      rw [kind.change_name, Fact.bind, if_pos hname.symm]
      exact hold.change kind value
    next hname =>
      rw [Fact.bind, if_neg (Ne.symm hname)]
      exact hold
  | part | title | direction | row | marker | entry | rhs => exact h.bounds c hc

/-- A fact that is no row changes the entries and the right-hand side of a row and nothing else. -/
lemma rowOf_concat (h : Describes facts m) (hrow : fact.row? = none)
    (row : Option Relation × String) :
    rowOf (facts ++ [fact]) row =
      { rowOf facts row with
        entries := (rowOf facts row).entries ++
          (fact.entryIn? row.2).toList.map fun e =>
            ⟨(columnsOf (facts ++ [fact])).idxOf e.1, e.2⟩
        rhs := if row.1.isSome then (fact.rhsOf? row.2).getD (rhsOf facts row.2) else 0 } := by
  have hkind : rowKindOf (facts ++ [fact]) row = rowKindOf facts row := by
    have hfirst : firstObjective? (facts ++ [fact]) = firstObjective? facts := by
      rw [firstObjective?_concat, hrow]
      cases firstObjective? facts <;> rfl
    obtain ⟨_ | rel, name⟩ := row
    · rw [rowKindOf, rowKindOf, hfirst]
    · rfl
  have hentries : ((entriesOf facts row.2).map fun e =>
      (⟨(columnsOf (facts ++ [fact])).idxOf e.1, e.2⟩ : Entry)) = (rowOf facts row).entries :=
    List.map_congr_left fun e he => by
      rw [idxOf_columnsOf_concat (known_of_mem_entriesOf h.known he).1]
  rw [rowOf, hkind, rhsOf_concat, entriesOf_concat, List.map_append, hentries]
  rfl

/-- A new row leaves the rows before it as they are. -/
lemma rowOf_concat_row {rel : Option Relation} {name : String}
    {row : Option Relation × String} (hmem : row ∈ rowsOf facts) :
    rowOf (facts ++ [.row rel name]) row = rowOf facts row := by
  have hkind : rowKindOf (facts ++ [.row rel name]) row = rowKindOf facts row := by
    obtain ⟨_ | rel', name'⟩ := row
    · -- there is an objective already, so the first one stays the same
      have hsome : (firstObjective? facts).isSome := by
        rw [firstObjective?, Option.isSome_map, List.find?_isSome]
        exact ⟨_, hmem, rfl⟩
      rw [rowKindOf, rowKindOf, firstObjective?_concat, Option.or_of_isSome hsome]
    · rfl
  have hcolumns : columnsOf (facts ++ [.row rel name]) = columnsOf facts := columnsOf_concat _ _
  have hentries : entriesOf (facts ++ [.row rel name]) row.2 = entriesOf facts row.2 :=
    (entriesOf_concat _ _ _).trans (List.append_nil _)
  rw [rowOf, hkind, hcolumns, hentries, rhsOf_concat]
  rfl

/-- An objective is among the rows if a row without a comparison is. -/
lemma any_objective (h : Describes facts m) :
    m.rows.any (·.kind = .objective) = (firstObjective? facts).isSome := by
  rw [Bool.eq_iff_iff, h.rows, List.any_map, List.any_eq_true]
  constructor
  · rintro ⟨⟨_ | rel, name⟩, hmem, hkind⟩
    · rw [firstObjective?, Option.isSome_map, List.find?_isSome]
      exact ⟨_, hmem, rfl⟩
    · simp [rowOf, rowKindOf] at hkind
  · intro hsome
    obtain ⟨name, hname⟩ := Option.isSome_iff_exists.1 hsome
    obtain ⟨⟨rel, _⟩, hfind, rfl⟩ := Option.map_eq_some_iff.1 hname
    obtain rfl : rel = none := by simpa using List.find?_some hfind
    refine ⟨_, List.mem_of_find?_eq_some hfind, ?_⟩
    simp [rowOf, rowKindOf, hname]

/-- A new row has no entries and no right-hand side yet. -/
lemma rowOf_new (h : Describes facts m) {rel : Option Relation} {name : String}
    (hnew : name ∉ (rowsOf facts).map (·.2)) :
    rowOf (facts ++ [.row rel name]) (rel, name) =
      { name, kind := rowKindOf (facts ++ [.row rel name]) (rel, name) } := by
  rw [rowOf, entriesOf_concat, rhsOf_concat, entriesOf_eq_nil h.known hnew]
  cases rel with
  | none => rfl
  | some rel =>
    simp only [Fact.rhsOf?, Option.getD_none, rhsOf_eq_zero h.known hnew]
    rfl

/-- A row that is taken comes last. -/
lemma rows_take_row (h : Describes facts m) (pos : Position) {rel : Option Relation} {name : String}
    (hnew : name ∉ (rowsOf facts).map (·.2)) :
    (m.take pos (.row rel name)).rows =
      (rowsOf (facts ++ [.row rel name])).map (rowOf (facts ++ [.row rel name])) := by
  rw [rowsOf_concat, Fact.row?, Option.toList_some, List.map_append, List.map_singleton,
    List.map_congr_left fun row hmem => rowOf_concat_row hmem, ← h.rows, h.rowOf_new hnew]
  cases rel with
  | some rel => rfl
  | none =>
    -- the row is the objective if there was none
    rw [rowKindOf, firstObjective?_concat]
    simp only [Model.take, Model.kindFor, h.any_objective]
    cases hfirst : firstObjective? facts with
    | none => simp [Fact.row?]
    | some first =>
      have hne : first ≠ name := by
        rintro rfl
        obtain ⟨row, hfind, rfl⟩ := Option.map_eq_some_iff.1 hfirst
        exact hnew (List.mem_map_of_mem (List.mem_of_find?_eq_some hfind))
      simp [hne]

/-- An entry that is taken comes last in its row. -/
lemma rows_take_entry (h : Describes facts m) (pos : Position) (col r : String) (value : Coeff) :
    (m.take pos (.entry col r value)).rows =
      (rowsOf facts).map (rowOf (facts ++ [.entry col r value])) := by
  simp only [Model.take, changeNamed, h.rows, List.map_map]
  refine List.map_congr_left fun row _ => ?_
  rw [h.rowOf_concat rfl, columnsOf_concat, ← h.columns]
  simp only [Function.comp_apply, Fact.entryIn?, Fact.column?, Option.elim_none, Fact.rhsOf?,
    Option.getD_none]
  by_cases hname : row.2 = r
  · simp [rowOf, hname]
  · simp [rowOf, hname, Ne.symm hname]

/-- A right-hand side that is taken is that of its row. -/
lemma rows_take_rhs (h : Describes facts m) (pos : Position) (r : String) (value : Coeff) :
    (m.take pos (.rhs r value)).rows =
      (rowsOf facts).map (rowOf (facts ++ [.rhs r value])) := by
  simp only [Model.take, changeNamed, h.rows, List.map_map]
  refine List.map_congr_left fun row _ => ?_
  rw [h.rowOf_concat rfl]
  simp only [Function.comp_apply, Fact.entryIn?, Option.toList_none, List.map_nil,
    List.append_nil, Fact.rhsOf?]
  by_cases hname : row.2 = r
  · obtain ⟨_ | rel, name⟩ := row
    · -- an objective has no right-hand side
      by_cases hfirst : firstObjective? facts = some name
      · simp [rowOf, rowKindOf, hfirst]
      · simp [rowOf, rowKindOf, hfirst]
    · simp_all [rowOf, rowKindOf]
  · simp [rowOf, hname, Ne.symm hname]

/-- A fact that speaks of no row leaves the rows as they are. -/
lemma rows_of_silent (h : Describes facts m) (hrow : fact.row? = none)
    (hentry : ∀ r, fact.entryIn? r = none) (hrhs : ∀ r, fact.rhsOf? r = none) :
    m.rows = (rowsOf facts).map (rowOf (facts ++ [fact])) := by
  rw [h.rows]
  refine List.map_congr_left fun row _ => ?_
  rw [h.rowOf_concat hrow, hentry, hrhs, Option.toList_none, List.map_nil, List.append_nil]
  rfl

/-- The rows are those of the facts, with a row, an entry or a right-hand side that is taken. -/
lemma rows_take (h : Describes facts m) (pos : Position) (hfits : fact.Fits facts) :
    (m.take pos fact).rows = (rowsOf (facts ++ [fact])).map (rowOf (facts ++ [fact])) := by
  have hsame : fact.row? = none → rowsOf (facts ++ [fact]) = rowsOf facts := by
    intro hrow
    rw [rowsOf_concat, hrow, Option.toList_none, List.append_nil]
  cases fact with
  | row rel name => exact h.rows_take_row pos hfits
  | entry col r value => exact (hsame rfl).symm ▸ h.rows_take_entry pos col r value
  | rhs r value => exact (hsame rfl).symm ▸ h.rows_take_rhs pos r value
  | part | title | direction | marker | column | bound =>
    exact (hsame rfl).symm ▸ h.rows_of_silent rfl (fun _ => rfl) fun _ => rfl

/-- No row is named twice when a row that can follow is added. -/
lemma apart_take (h : Describes facts m) (hfits : fact.Fits facts) :
    ((rowsOf (facts ++ [fact])).map (·.2)).Nodup := by
  rw [rowsOf_concat, List.map_append]
  cases fact with
  | row rel name =>
    rw [Fact.row?, Option.toList_some, List.map_singleton, ← List.concat_eq_append]
    exact h.apart.concat hfits
  | part | title | direction | marker | column | entry | rhs | bound =>
    exact (List.append_nil _).symm ▸ h.apart

/-- What the reader makes of a fact that can follow is described by the facts with the new one. -/
lemma take (h : Describes facts m) (pos : Position) (hfits : fact.Fits facts) :
    Describes (facts ++ [fact]) (m.take pos fact) where
  part := by
    rw [sectionAfter_append, ← h.part]
    cases fact <;> rfl
  name := by
    rw [titleOf_concat, ← h.name]
    cases fact <;> rfl
  direction := by
    rw [directionOf_concat, ← h.direction]
    cases fact <;> rfl
  block := by
    rw [inBlock_concat, ← h.block]
    cases fact <;> rfl
  rows := h.rows_take pos hfits
  apart := h.apart_take hfits
  columns := h.columns_take pos fact
  integer := h.integer_take pos fact
  bounds := h.bounds_take pos fact
  known := List.forall_mem_append.2
    ⟨fun old hold => (h.known old hold).concat, List.forall_mem_singleton.2 hfits.known.concat⟩

/-- What the reader makes of facts that can follow one after another is described by all of them. -/
lemma takeAll {more : List Fact} (h : Describes facts m) (pos : Position)
    (hfit : AllFit facts more) : Describes (facts ++ more) (m.takeAll pos more) := by
  induction more generalizing facts m with
  | nil =>
    rw [List.append_nil]
    exact h
  | cons fact more ih =>
    rw [List.append_cons]
    exact ih (h.take pos hfit.1) hfit.2

end Describes

/-- Nothing is kept before anything is said. -/
lemma describes_nil : Describes [] {} where
  part := rfl
  name := rfl
  direction := rfl
  block := rfl
  rows := rfl
  apart := List.nodup_nil
  columns := rfl
  integer := List.forall_mem_nil _
  bounds := List.forall_mem_nil _
  known := List.forall_mem_nil _

end LinearInterchange.Mps
