import LinearInterchange.Proofs.MpsReader

/-!
# What a file of free MPS says

The lines of a file say facts: that there is a row, that a column appears, that a column has an
entry in a row, and so on.  A line that holds two entries says both, and the names of the sets of
right-hand sides and bounds are no part of what a line says.  `Says` tells which facts a line states
in the section where it stands.

The matrix of a file is described in terms of its facts alone: its columns by the order in which
they first appear, the entries of a row by those of the facts that are addressed to it.
-/

namespace LinearInterchange.Mps

open Text Table

/-! ## Facts -/

/-- The kinds of bounds. -/
inductive BoundKind where
  | upper
  | lower
  | fixed
  | binary
  | integerLower
  | integerUpper
  | noLower
  | noUpper
  | free
  deriving DecidableEq

namespace BoundKind

/-- The word for a kind of bound. -/
def word : BoundKind → String
  | upper => "UP"
  | lower => "LO"
  | fixed => "FX"
  | binary => "BV"
  | integerLower => "LI"
  | integerUpper => "UI"
  | noLower => "MI"
  | noUpper => "PL"
  | free => "FR"

/-- A bound of this kind comes with a value. -/
def hasValue : BoundKind → Bool
  | binary | noLower | noUpper | free => false
  | _ => true

/-- A bound of this kind makes its column integer. -/
def isInteger : BoundKind → Bool
  | binary | integerLower | integerUpper => true
  | _ => false

/-- What a bound does to its column. -/
def change (value : Option Coeff) : BoundKind → Column → Column
  | upper, c => { c with upper := value }
  | lower, c => { c with lower := value }
  | fixed, c => { c with lower := value, upper := value }
  | binary, c => c.setBinary
  | integerLower, c => { c with integer := true, lower := value }
  | integerUpper, c => { c with integer := true, upper := value }
  | noLower, c => { c with lower := none }
  | noUpper, c => { c with upper := none }
  | free, c => { c with lower := none, upper := none }

end BoundKind

/-- What a line of a file says. -/
inductive Fact where
  /-- A section begins. -/
  | part (s : Section)
  /-- The file has a name, or none. -/
  | title (name : Option String)
  /-- The direction of optimisation. -/
  | direction (d : Direction)
  /-- There is a row, with a comparison unless it is an objective. -/
  | row (rel : Option Relation) (name : String)
  /-- A block of integer columns begins or ends. -/
  | marker (opens : Bool)
  /-- A line of a column. -/
  | column (name : String)
  /-- An entry of a column in a row. -/
  | entry (column row : String) (value : Coeff)
  /-- The right-hand side of a row. -/
  | rhs (row : String) (value : Coeff)
  /-- A bound of a column. -/
  | bound (kind : BoundKind) (column : String) (value : Option Coeff)

namespace Fact

/-- The section that begins. -/
def part? : Fact → Option Section
  | part s => some s
  | _ => none

/-- The name of the file. -/
def title? : Fact → Option (Option String)
  | title name => some name
  | _ => none

/-- The direction of optimisation. -/
def direction? : Fact → Option Direction
  | direction d => some d
  | _ => none

/-- The row that there is. -/
def row? : Fact → Option (Option Relation × String)
  | row rel name => some (rel, name)
  | _ => none

/-- Whether a block begins or ends. -/
def marker? : Fact → Option Bool
  | marker opens => some opens
  | _ => none

/-- The column that appears. -/
def column? : Fact → Option String
  | column name => some name
  | _ => none

/-- The column and the value of an entry in a given row. -/
def entryIn? (target : String) : Fact → Option (String × Coeff)
  | entry col r value => if r = target then some (col, value) else none
  | _ => none

/-- The right-hand side of a given row. -/
def rhsOf? (target : String) : Fact → Option Coeff
  | rhs r value => if r = target then some value else none
  | _ => none

/-- What the fact does to the bounds of a column. -/
def bind (target : String) (c : Column) : Fact → Column
  | bound kind col value => if col = target then kind.change value c else c
  | _ => c

end Fact

/-! ## The matrix that facts describe -/

/-- The section in which the facts end, given the one in which they begin. -/
def sectionAfter (part : Section) (facts : List Fact) : Section :=
  (facts.filterMap Fact.part?).getLast?.getD part

/-- The name of the file: the last one that is given. -/
def titleOf (facts : List Fact) : Option String :=
  (facts.filterMap Fact.title?).getLast?.getD none

/-- The direction of optimisation: the last one that is given. -/
def directionOf (facts : List Fact) : Direction :=
  (facts.filterMap Fact.direction?).getLast?.getD .unspecified

/-- A block of integer columns is open: the last marker begins one. -/
def inBlock (facts : List Fact) : Bool :=
  (facts.filterMap Fact.marker?).getLast?.getD false

/-- The rows, in order. -/
def rowsOf (facts : List Fact) : List (Option Relation × String) :=
  facts.filterMap Fact.row?

/-- The first row without a comparison. -/
def firstObjective? (facts : List Fact) : Option String :=
  ((rowsOf facts).find? (·.1.isNone)).map (·.2)

/-- The columns, in the order in which they first appear. -/
def columnsOf (facts : List Fact) : List String :=
  (facts.filterMap Fact.column?).eraseDups

/-- The entries of a row, in order. -/
def entriesOf (facts : List Fact) (row : String) : List (String × Coeff) :=
  facts.filterMap (Fact.entryIn? row)

/-- The right-hand side of a row: the last one that is given, or zero. -/
def rhsOf (facts : List Fact) (row : String) : Coeff :=
  (facts.filterMap (Fact.rhsOf? row)).getLast?.getD 0

/-- The column is marked as integer: it appears within a block, or it has a bound that says so. -/
def MarkedInteger (facts : List Fact) (column : String) : Prop :=
  (∃ before after, facts = before ++ .column column :: after ∧ inBlock before = true) ∨
    ∃ kind value, .bound kind column value ∈ facts ∧ kind.isInteger = true

/-- The bounds of a column: what the facts make of those that every column has. -/
def boundsOf (facts : List Fact) (column : String) : Column :=
  facts.foldl (Fact.bind column) { name := column, pos := ⟨0, 0⟩ }

/-- The fact can follow others: it speaks of rows and columns that there are, it does not name a row
a second time, and it gives the objective no right-hand side but zero. -/
def Fact.Fits (facts : List Fact) : Fact → Prop
  | .row _ name => name ∉ (rowsOf facts).map (·.2)
  | .entry col r _ => col ∈ columnsOf facts ∧ r ∈ (rowsOf facts).map (·.2)
  | .rhs r value => r ∈ (rowsOf facts).map (·.2) ∧ (firstObjective? facts = some r → value = 0)
  | .bound _ col _ => col ∈ columnsOf facts
  | .part _ | .title _ | .direction _ | .marker _ | .column _ => True

/-- Facts can follow others one after another. -/
def AllFit : List Fact → List Fact → Prop
  | _, [] => True
  | facts, fact :: more => fact.Fits facts ∧ AllFit (facts ++ [fact]) more

/-! ## The facts of a line -/

/-- The tokens give the values of entries or right-hand sides in rows. -/
def Gives (token : List Char × List Char) (value : String × Coeff) : Prop :=
  value.1 = .ofList token.1 ∧ Coeff.read token.2 = .ok value.2

/-- Fields that stand two by two. -/
def fieldsOf (pairs : List (List Char × List Char)) : List (List Char) :=
  pairs.flatMap fun p => [p.1, p.2]

/-- The word for the comparison of a row. -/
def rowLetter : Option Relation → Char
  | none => 'N'
  | some .le => 'L'
  | some .ge => 'G'
  | some .eq => 'E'

/-- The fields of a line of data say facts in a section. -/
inductive DataSays : Section → List (List Char) → List Fact → Prop
  | sense {word : List Char} {fields : List (List Char)} {d : Direction}
      (hword : Model.readSense word = .ok d) : DataSays .sense (word :: fields) [.direction d]
  | row {kind name : List Char} {rel : Option Relation} (hkind : upper kind = [rowLetter rel]) :
      DataSays .rows [kind, name] [.row rel (.ofList name)]
  | marker {label word kind : List Char} {fields : List (List Char)} {opens : Bool}
      (hword : upper word = "'MARKER'".toList)
      (hkind : upper kind = (if opens then "'INTORG'" else "'INTEND'").toList) :
      DataSays .columns (label :: word :: kind :: fields) [.marker opens]
  | column {name : List Char} {tokens : List (List Char × List Char)}
      {values : List (String × Coeff)} (hmarker : ∀ p ∈ tokens.head?, upper p.1 ≠ "'MARKER'".toList)
      (hlength : tokens.length = 1 ∨ tokens.length = 2)
      (hvalues : List.Forall₂ Gives tokens values) :
      DataSays .columns (name :: fieldsOf tokens)
        (.column (.ofList name) :: values.map fun v => .entry (.ofList name) v.1 v.2)
  | rhs {tokens : List (List Char × List Char)} {values : List (String × Coeff)}
      (hne : tokens ≠ []) (hvalues : List.Forall₂ Gives tokens values) :
      DataSays .rhs (fieldsOf tokens) (values.map fun v => .rhs v.1 v.2)
  | rhsOfSet {set : List Char} {tokens : List (List Char × List Char)}
      {values : List (String × Coeff)} (hne : tokens ≠ [])
      (hvalues : List.Forall₂ Gives tokens values) :
      DataSays .rhs (set :: fieldsOf tokens) (values.map fun v => .rhs v.1 v.2)
  | bound {keyword column : List Char} {token : Option (List Char)} {kind : BoundKind}
      {value : Option Coeff} (hkeyword : upper keyword = kind.word.toList)
      (htoken : token.isSome = kind.hasValue)
      (hvalue : token.elim (.ok none) Model.readBound = .ok value) :
      DataSays .bounds (keyword :: column :: token.toList) [.bound kind (.ofList column) value]
  | boundOfSet {keyword set column : List Char} {token : Option (List Char)} {kind : BoundKind}
      {value : Option Coeff} (hkeyword : upper keyword = kind.word.toList)
      (htoken : token.isSome = kind.hasValue)
      (hvalue : token.elim (.ok none) Model.readBound = .ok value) :
      DataSays .bounds (keyword :: set :: column :: token.toList)
        [.bound kind (.ofList column) value]

/-- What follows the keyword of a section on its line says facts. -/
inductive HeaderSays : Section → List Char → List Fact → Prop
  | bare {part : Section} (hpart : part ≠ .name) : HeaderSays part [] []
  | untitled : HeaderSays .name [] [.title none]
  | title {rest : List Char} (hne : rest ≠ []) :
    HeaderSays .name rest [.title (some (.ofList rest))]
  | sense {rest : List Char} {d : Direction} (hne : rest ≠ [])
      (hrest : Model.readSense rest = .ok d) : HeaderSays .sense rest [.direction d]
  | ending {rest : List Char} (hne : rest ≠ []) : HeaderSays .finished rest []

/-- A line says facts in the section where it stands: nothing if it is blank or a comment, what its
fields say if it begins with white space, and otherwise what its keyword says. -/
inductive Says : Section → String → List Fact → Prop
  | blank {part : Section} {text : String} (htext : trimRight text.toList = []) : Says part text []
  | comment {part : Section} {text : String} {cs : List Char}
      (htext : trimRight text.toList = '*' :: cs) : Says part text []
  | data {part : Section} {text : String} {c : Char} {cs : List Char} {facts : List Fact}
      (htext : trimRight text.toList = c :: cs) (hc : isBlank c = true)
      (hfields : DataSays part (words (c :: cs)) facts) : Says part text facts
  | header {part part' : Section} {text : String} {c : Char} {cs keyword rest : List Char}
      {facts : List Fact} (htext : trimRight text.toList = c :: cs) (hc : isBlank c = false)
      (hcomment : c ≠ '*')
      (hsplit : (splitFirst isBlank (c :: cs)).getD (c :: cs, []) = (keyword, rest))
      (hkeyword : Model.readKeyword keyword = .ok part')
      (hrest : HeaderSays part' (trim rest) facts) : Says part text (.part part' :: facts)

/-- The lines of a file, up to its end, say facts one after another. -/
inductive FileSays : Section → List String → List Fact → Prop
  | ending {part : Section} {text : String} {facts : List Fact} (hline : Says part text facts)
      (hend : sectionAfter part facts = .finished) : FileSays part [text] facts
  | line {part : Section} {text : String} {facts more : List Fact} {texts : List String}
      (hline : Says part text facts) (hopen : sectionAfter part facts ≠ .finished)
      (hrest : FileSays (sectionAfter part facts) texts more) :
      FileSays part (text :: texts) (facts ++ more)

/-! ## What is said once -/

/-- Fields make pairs in one way only. -/
lemma fieldsOf_injective : Function.Injective fieldsOf := by
  intro pairs pairs' h
  induction pairs generalizing pairs' with
  | nil =>
    cases pairs' with
    | nil => rfl
    | cons p pairs' => cases h
  | cons p pairs ih =>
    cases pairs' with
    | nil => cases h
    | cons p' pairs' =>
      injection h with hfirst h
      injection h with hsecond h
      rw [Prod.ext hfirst hsecond, ih h]

/-- There are two fields for each pair. -/
lemma length_fieldsOf (pairs : List (List Char × List Char)) :
    (fieldsOf pairs).length = 2 * pairs.length := by
  induction pairs with
  | nil => rfl
  | cons p pairs ih =>
    rw [fieldsOf, List.flatMap_cons, List.length_append, ← fieldsOf, ih, List.length_cons,
      List.length_cons, List.length_cons, List.length_nil]
    omega

/-- An odd number of fields makes no pairs. -/
lemma fieldsOf_ne_cons (pairs pairs' : List (List Char × List Char)) (field : List Char) :
    fieldsOf pairs ≠ field :: fieldsOf pairs' := by
  intro h
  have hlength := congrArg List.length h
  rw [List.length_cons, length_fieldsOf, length_fieldsOf] at hlength
  omega

/-- The fields of a marker are not those of a column. -/
lemma cons_cons_ne_cons_fieldsOf {label word name : List Char} {fields : List (List Char)}
    {tokens : List (List Char × List Char)} (hword : upper word = "'MARKER'".toList)
    (hmarker : ∀ p ∈ tokens.head?, upper p.1 ≠ "'MARKER'".toList) :
    label :: word :: fields ≠ name :: fieldsOf tokens := by
  intro h
  injection h with _ h
  cases tokens with
  | nil => cases h
  | cons p tokens =>
    injection h with hfirst _
    exact hmarker p rfl (hfirst ▸ hword)

lemma gives_unique : Relator.RightUnique Gives := by
  intro token v v' h h'
  exact Prod.ext (h.1.trans h'.1.symm) (Except.ok.inj (h.2.symm.trans h'.2))

lemma BoundKind.word_injective : Function.Injective word := by
  intro kind kind' h
  cases kind <;> cases kind' <;> simp_all [word]

lemma rowLetter_injective : Function.Injective rowLetter := by
  intro rel rel' h
  rcases rel with _ | _ | _ | _ <;> rcases rel' with _ | _ | _ | _ <;> simp_all [rowLetter]

/-- The fields of a bound say what its kind, its column and its value are. -/
lemma bound_unique {keyword col col' : List Char} {token token' : Option (List Char)}
    {kind kind' : BoundKind} {value value' : Option Coeff}
    (hkeyword : upper keyword = kind.word.toList) (hkeyword' : upper keyword = kind'.word.toList)
    (htoken : token.isSome = kind.hasValue) (htoken' : token'.isSome = kind'.hasValue)
    (hvalue : token.elim (.ok none) Model.readBound = .ok value)
    (hvalue' : token'.elim (.ok none) Model.readBound = .ok value')
    (hfields : token.isSome = token'.isSome → col = col' ∧ token.toList = token'.toList) :
    Fact.bound kind (.ofList col) value = .bound kind' (.ofList col') value' := by
  obtain rfl : kind = kind' := BoundKind.word_injective
    (String.toList_injective (hkeyword.symm.trans hkeyword'))
  obtain ⟨rfl, htail⟩ := hfields (htoken.trans htoken'.symm)
  obtain rfl : token = token' := by
    cases token <;> cases token' <;> simp_all
  rw [Except.ok.inj (hvalue.symm.trans hvalue')]

/-- Fields say one thing in a section. -/
lemma DataSays.unique {part : Section} {fields : List (List Char)} {facts facts' : List Fact}
    (h : DataSays part fields facts) (h' : DataSays part fields facts') : facts = facts' := by
  cases h with
  | sense hword =>
    cases h' with
    | sense hword' => rw [Except.ok.inj (hword.symm.trans hword')]
  | row hkind =>
    cases h' with
    | row hkind' =>
      rw [rowLetter_injective (List.cons.inj (hkind.symm.trans hkind')).1]
  | @marker label word kind fields opens hword hkind =>
    generalize hfields : label :: word :: kind :: fields = all at h'
    cases h' with
    | @marker _ _ _ _ opens' _ hkind' =>
      cases hfields
      rw [hkind] at hkind'
      cases opens <;> cases opens' <;> simp_all
    | column hmarker _ _ => exact absurd hfields (cons_cons_ne_cons_fieldsOf hword hmarker)
  | @column name tokens values hmarker hlength hvalues =>
    generalize hfields : name :: fieldsOf tokens = all at h'
    cases h' with
    | marker hword' _ => exact absurd hfields.symm (cons_cons_ne_cons_fieldsOf hword' hmarker)
    | column _ _ hvalues' =>
      injection hfields with hname hfields
      obtain rfl := fieldsOf_injective hfields
      rw [hname, List.right_unique_forall₂' gives_unique hvalues hvalues']
  | @rhs tokens values hne hvalues =>
    generalize hfields : fieldsOf tokens = fields at h'
    cases h' with
    | rhs _ hvalues' =>
      obtain rfl := fieldsOf_injective hfields
      rw [List.right_unique_forall₂' gives_unique hvalues hvalues']
    | rhsOfSet _ _ => exact absurd hfields (fieldsOf_ne_cons _ _ _)
  | @rhsOfSet set tokens values hne hvalues =>
    generalize hfields : set :: fieldsOf tokens = fields at h'
    cases h' with
    | rhs _ _ => exact absurd hfields.symm (fieldsOf_ne_cons _ _ _)
    | rhsOfSet _ hvalues' =>
      obtain rfl := fieldsOf_injective (List.cons.inj hfields).2
      rw [List.right_unique_forall₂' gives_unique hvalues hvalues']
  | @bound keyword col token kind value hkeyword htoken hvalue =>
    generalize hfields : keyword :: col :: token.toList = fields at h'
    cases h' with
    | @bound _ _ token' _ _ hkeyword' htoken' hvalue' =>
      injection hfields with hword hfields
      rw [bound_unique hkeyword (hword ▸ hkeyword') htoken htoken' hvalue hvalue' fun _ => ?_]
      injection hfields with hcol htail
      exact ⟨hcol, htail⟩
    | @boundOfSet _ _ _ token' _ _ hkeyword' htoken' hvalue' =>
      injection hfields with hword hfields
      rw [bound_unique hkeyword (hword ▸ hkeyword') htoken htoken' hvalue hvalue' fun hsome => ?_]
      -- the name of a set would be one field too many
      cases token <;> cases token' <;> simp_all
  | @boundOfSet keyword set col token kind value hkeyword htoken hvalue =>
    generalize hfields : keyword :: set :: col :: token.toList = fields at h'
    cases h' with
    | @bound _ _ token' _ _ hkeyword' htoken' hvalue' =>
      injection hfields with hword hfields
      rw [bound_unique hkeyword (hword ▸ hkeyword') htoken htoken' hvalue hvalue' fun hsome => ?_]
      cases token <;> cases token' <;> simp_all
    | @boundOfSet _ _ _ token' _ _ hkeyword' htoken' hvalue' =>
      injection hfields with hword hfields
      rw [bound_unique hkeyword (hword ▸ hkeyword') htoken htoken' hvalue hvalue' fun _ => ?_]
      injection hfields with _ hfields
      injection hfields with hcol htail
      exact ⟨hcol, htail⟩

/-- What follows a keyword says one thing. -/
lemma HeaderSays.unique {part : Section} {rest : List Char} {facts facts' : List Fact}
    (h : HeaderSays part rest facts) (h' : HeaderSays part rest facts') : facts = facts' := by
  cases h with
  | bare hpart =>
    cases h' with
    | bare => rfl
    | untitled => exact absurd rfl hpart
    | title hne => exact absurd rfl hne
    | sense hne => exact absurd rfl hne
    | ending hne => rfl
  | untitled =>
    cases h' with
    | bare hpart => exact absurd rfl hpart
    | untitled => rfl
    | title hne => exact absurd rfl hne
  | title hne =>
    cases h' with
    | bare => exact absurd rfl hne
    | untitled => exact absurd rfl hne
    | title => rfl
  | sense hne hrest =>
    cases h' with
    | bare => exact absurd rfl hne
    | sense _ hrest' => rw [Except.ok.inj (hrest.symm.trans hrest')]
  | ending hne =>
    cases h' with
    | bare => rfl
    | ending => rfl

/-- A line says one thing in a section. -/
lemma Says.unique {part : Section} {text : String} {facts facts' : List Fact}
    (h : Says part text facts) (h' : Says part text facts') : facts = facts' := by
  have hstar : isBlank '*' = false := by decide
  cases h with
  | blank htext =>
    cases h' with
    | blank => rfl
    | comment => rfl
    | data htext' _ _ => exact absurd (htext.symm.trans htext') (List.cons_ne_nil _ _).symm
    | header htext' => exact absurd (htext.symm.trans htext') (List.cons_ne_nil _ _).symm
  | comment htext =>
    cases h' with
    | blank => rfl
    | comment => rfl
    | data htext' hc _ =>
      obtain ⟨rfl, -⟩ := List.cons.inj (htext.symm.trans htext')
      rw [hstar] at hc
      cases hc
    | header htext' _ hcomment =>
      exact absurd (List.cons.inj (htext.symm.trans htext')).1.symm hcomment
  | data htext hc hfields =>
    cases h' with
    | blank htext' => exact absurd (htext'.symm.trans htext) (List.cons_ne_nil _ _).symm
    | comment htext' =>
      obtain ⟨rfl, -⟩ := List.cons.inj (htext'.symm.trans htext)
      rw [hstar] at hc
      cases hc
    | data htext' _ hfields' =>
      rw [← htext] at hfields
      rw [← htext'] at hfields'
      exact hfields.unique hfields'
    | header htext' hc' =>
      obtain ⟨rfl, -⟩ := List.cons.inj (htext.symm.trans htext')
      rw [hc] at hc'
      cases hc'
  | header htext hc hcomment hsplit hkeyword hrest =>
    cases h' with
    | blank htext' => exact absurd (htext'.symm.trans htext) (List.cons_ne_nil _ _).symm
    | comment htext' => exact absurd (List.cons.inj (htext.symm.trans htext')).1 hcomment
    | data htext' hc' =>
      obtain ⟨rfl, -⟩ := List.cons.inj (htext.symm.trans htext')
      rw [hc] at hc'
      cases hc'
    | header htext' _ _ hsplit' hkeyword' hrest' =>
      rw [← htext] at hsplit
      rw [← htext', hsplit] at hsplit'
      obtain ⟨rfl, rfl⟩ := Prod.mk.inj hsplit'
      obtain rfl := Except.ok.inj (hkeyword.symm.trans hkeyword')
      rw [hrest.unique hrest']

/-- The first lines of a text say one thing. -/
lemma FileSays.unique {part : Section} {texts texts' : List String} {facts facts' : List Fact}
    {lines : List (List UInt8)} (h : FileSays part texts facts)
    (h' : FileSays part texts' facts') (hlines : texts.map bytesOf <+: lines)
    (hlines' : texts'.map bytesOf <+: lines) : facts = facts' := by
  induction h generalizing texts' facts' lines with
  | ending hline hend =>
    obtain ⟨more, rfl⟩ := hlines
    cases h' with
    | ending hline' _ =>
      obtain rfl := bytesOf_injective (List.cons_prefix_cons.1 hlines').1
      exact hline.unique hline'
    | line hline' hopen' _ =>
      obtain rfl := bytesOf_injective (List.cons_prefix_cons.1 hlines').1
      rw [hline.unique hline'] at hend
      exact absurd hend hopen'
  | line hline hopen _ ih =>
    obtain ⟨more, rfl⟩ := hlines
    cases h' with
    | ending hline' hend' =>
      obtain rfl := bytesOf_injective (List.cons_prefix_cons.1 hlines').1
      rw [hline.unique hline'] at hopen
      exact absurd hend' hopen
    | line hline' _ hrest' =>
      obtain ⟨htext, htexts⟩ := List.cons_prefix_cons.1 hlines'
      obtain rfl := bytesOf_injective htext
      obtain rfl := hline.unique hline'
      rw [ih hrest' (List.prefix_append _ more) htexts]

end LinearInterchange.Mps
