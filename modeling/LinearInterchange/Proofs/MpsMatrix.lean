import LinearInterchange.Conversion.Reader
import LinearInterchange.Proofs.MpsLines
import LinearInterchange.Proofs.TableInstances

/-!
# The matrix of a file of free MPS

What a file says makes a matrix, and the instance that is read from it is this matrix (`IsMatrix`):
its variables are the columns in the order in which they first appear, its constraints are the rows
with a comparison, and the terms of a row are the entries that are addressed to it.

The instance depends on nothing else.  Files that say the same facts are read as the same instance,
and one of them is refused for a continuous column exactly if it has a column that neither a marker
nor a bound makes integer, unless all columns are taken as integer.
-/

namespace LinearInterchange.Mps

open Text Table

variable {m m' : Model} {facts more : List Fact} {inst : Instance} {settings : Table.Settings}
  {input input' : InputStream}

/-- The first lines of a file, up to its end, say the facts. -/
def Written (content : List UInt8) (facts : List Fact) : Prop :=
  ∃ texts : List String, texts.map bytesOf <+: ByteSource.cutLines content ∧
    FileSays .preamble texts facts

/-- A file says one thing. -/
lemma Written.unique {content : List UInt8} {facts' : List Fact} (h : Written content facts)
    (h' : Written content facts') : facts' = facts := by
  obtain ⟨texts, hlines, hsaid⟩ := h
  obtain ⟨texts', hlines', hsaid'⟩ := h'
  exact hsaid'.unique hsaid hlines' hlines

/-! ## Runs over the lines of a file -/

/-- Facts can follow one after another if the first ones can and then the other ones. -/
lemma allFit_append {last : List Fact} :
    AllFit facts (more ++ last) ↔ AllFit facts more ∧ AllFit (facts ++ more) last := by
  induction more generalizing facts with
  | nil => simp [AllFit]
  | cons fact more ih =>
    rw [List.cons_append, AllFit, AllFit, ih, List.append_cons facts fact more, and_assoc]

/-- A step takes the facts of its line; it stops if they end the file. -/
lemma step_eq_ok (h : Describes facts m) {pos : Position} {text : String}
    {next : InputStream.LineStep Model} : step m pos text = .ok next ↔
      ∃ m', Takes facts pos m m' (Says (sectionAfter .preamble facts) text) ∧
        (if m'.part = .finished then InputStream.LineStep.done m' else .more m') = next := by
  rw [step, map_eq_ok]
  simp only [Position.report, mapError_eq_ok, h.addText_eq_ok, h.part]

/-- The reader is in the section that the facts announce. -/
lemma Describes.part_append (h : Describes (facts ++ more) m) :
    sectionAfter (sectionAfter .preamble facts) more = m.part := by
  rw [h.part, sectionAfter_append]

/-- Steps up to the end of a file take what its lines say. -/
lemma fileSays_of_passes {texts : List String} {stopped : Bool}
    (hpasses : InputStream.Passes step m texts m' stopped) (h : Describes facts m)
    (hopen : m.part ≠ .finished) (hend : m'.part = .finished) :
    ∃ more, FileSays (sectionAfter .preamble facts) texts more ∧ AllFit facts more ∧
      Describes (facts ++ more) m' := by
  -- the model that is carried along is described by the facts of the lines before
  induction hpasses generalizing facts with
  | nil => exact absurd hend hopen
  | @done _ _ pos text hstep =>
    obtain ⟨_, ⟨more, hsaid, hfit, rfl⟩, hnext⟩ := (step_eq_ok h).1 hstep
    split at hnext
    · cases hnext
      have htaken := h.takeAll pos hfit
      exact ⟨more, .ending hsaid (htaken.part_append.trans hend), hfit, htaken⟩
    · cases hnext
  | @more _ _ _ pos text texts stopped hstep _ ih =>
    obtain ⟨_, ⟨more, hsaid, hfit, rfl⟩, hnext⟩ := (step_eq_ok h).1 hstep
    split at hnext
    · cases hnext
    next hpart =>
      cases hnext
      have htaken := h.takeAll pos hfit
      obtain ⟨last, hrest, hlast, hall⟩ := ih htaken hpart hend
      rw [sectionAfter_append] at hrest
      refine ⟨more ++ last, .line hsaid ?_ hrest, allFit_append.2 ⟨hfit, hlast⟩, ?_⟩
      · rwa [htaken.part_append]
      · rwa [← List.append_assoc]

/-- The lines of a file are read up to its end if they say facts that can follow one another. -/
lemma foldLines_of_fileSays {texts : List String} {part : Section}
    (hsaid : FileSays part texts more) (h : Describes facts m)
    (hpart : part = sectionAfter .preamble facts) (hfit : AllFit facts more) (last : Position)
    (hlines : texts.map bytesOf <+: ByteSource.cutLines input.source.rest) :
    ∃ m' last' input', input.foldLines step m last = (.ok (m', last'), input') ∧
      Describes (facts ++ more) m' ∧ m'.part = .finished := by
  -- every line is accepted, since its facts can follow those of the lines before
  induction hsaid generalizing facts m last input with
  | ending hline hend =>
    subst hpart
    obtain ⟨lines, hlines⟩ := hlines
    obtain ⟨hne, input', hread, -⟩ := InputStream.readLine_of_cutLines hlines.symm
    have htaken := h.takeAll input.position hfit
    have hfinished := htaken.part_append.symm.trans hend
    have hstep : step m input.position _ = .ok (.done _) :=
      (step_eq_ok h).2 ⟨_, ⟨_, hline, hfit, rfl⟩, if_pos hfinished⟩
    refine ⟨_, input.position, input', ?_, htaken, hfinished⟩
    rw [InputStream.foldLines, hread]
    simp only [dif_neg hne, hstep]
  | line hline hopen _ ih =>
    subst hpart
    obtain ⟨lines, hlines⟩ := hlines
    obtain ⟨hne, input', hread, hrest⟩ := InputStream.readLine_of_cutLines hlines.symm
    obtain ⟨hfirst, hfit⟩ := allFit_append.1 hfit
    have htaken := h.takeAll input.position hfirst
    have hmore := htaken.part_append ▸ hopen
    have hstep : step m input.position _ = .ok (.more _) :=
      (step_eq_ok h).2 ⟨_, ⟨_, hline, hfirst, rfl⟩, if_neg hmore⟩
    obtain ⟨m', last', input'', hfold, hall, hend⟩ :=
      ih htaken (sectionAfter_append _ _ _).symm hfit input.position ⟨lines, hrest.symm⟩
    rw [List.append_assoc] at hall
    refine ⟨m', last', input'', ?_, hall, hend⟩
    rw [InputStream.foldLines, hread]
    simp only [dif_neg hne, hstep, hfold]

/-- What is decoded is the table that the facts of the file describe. -/
lemma build_of_decode (h : decode settings input = (.ok inst, input')) :
    ∃ facts m, Written input.source.rest facts ∧ AllFit [] facts ∧ Describes facts m ∧
      build settings m.name m.cols m.constrs m.direction m.objective = .ok inst := by
  simp only [decode] at h
  split at h
  · cases (Prod.mk.inj h).1
  next m last input₁ hfold =>
    split at h
    next hend =>
      obtain ⟨texts, stopped, hpasses, hlines, -⟩ := InputStream.passes_of_foldLines hfold
      obtain ⟨facts, hsaid, hfit, hall⟩ := fileSays_of_passes hpasses describes_nil (by decide) hend
      exact ⟨facts, m, ⟨texts, hlines, hsaid⟩, hfit, hall, (Prod.mk.inj h).1⟩
    next => cases (Prod.mk.inj h).1

/-- A file whose facts can follow one another is decoded as the table that they describe. -/
lemma decode_of_written (settings : Table.Settings) (h : Written input.source.rest facts)
    (hfit : AllFit [] facts) : ∃ m input', Describes facts m ∧ decode settings input =
      (build settings m.name m.cols m.constrs m.direction m.objective, input') := by
  obtain ⟨texts, hlines, hsaid⟩ := h
  obtain ⟨m, last, input', hfold, hall, hend⟩ :=
    foldLines_of_fileSays hsaid describes_nil rfl hfit input.position hlines
  refine ⟨m, input', hall, ?_⟩
  simp only [decode]
  split
  next heq => cases heq.symm.trans hfold
  next heq =>
    cases heq.symm.trans hfold
    exact if_pos hend

/-! ## The instance of the facts -/

/-- The terms are the entries in order, each over the variable of its column. -/
def AreTerms (facts : List Fact) (entries : List (String × Coeff)) (terms : List Term) : Prop :=
  List.Forall₂ (fun e t => (columnsOf facts)[t.var.id.toNat]? = some e.1 ∧ t.coeff = e.2)
    entries terms

/-- The constraint of a row with a comparison. -/
structure IsRow (facts : List Fact) (row : Relation × String) (c : LinConstraint) : Prop where
  terms : AreTerms facts (entriesOf facts row.2) c.terms
  rel : c.rel = row.1
  rhs : c.rhs = rhsOf facts row.2

/-- The rows with a comparison, in order. -/
def comparisonsOf (facts : List Fact) : List (Relation × String) :=
  (rowsOf facts).filterMap fun row => row.1.map (·, row.2)

/-- The entries of the objective: those of the first row without a comparison. -/
def objectiveOf (facts : List Fact) : List (String × Coeff) :=
  (firstObjective? facts).elim [] (entriesOf facts)

/-- The instance is the matrix that the facts describe. -/
structure IsMatrix (facts : List Fact) (inst : Instance) : Prop where
  name : inst.name = titleOf facts
  /-- The variables are the columns, in the order in which they first appear. -/
  columns : inst.vars.map (·.name) = columnsOf facts
  /-- The ids of the variables are numbers from zero on. -/
  ids : inst.vars.map (·.var.id.toNat) = List.range inst.vars.length
  /-- The constraints are the rows with a comparison, in order. -/
  rows : List.Forall₂ (IsRow facts) (comparisonsOf facts) inst.constrs
  direction : inst.objective.direction = directionOf facts
  objective : AreTerms facts (objectiveOf facts) inst.objective.terms

/-- The entries as the reader keeps them, each with the number of its column. -/
def numbered (facts : List Fact) (entries : List (String × Coeff)) : List Entry :=
  entries.map fun e => ⟨(columnsOf facts).idxOf e.1, e.2⟩

/-- Terms of entries by number are terms of entries by name. -/
lemma areTerms_of_numbered {entries : List (String × Coeff)} {terms : List Term}
    (hknown : ∀ e ∈ entries, e.1 ∈ columnsOf facts)
    (hterms : TermsOf (numbered facts entries) terms) : AreTerms facts entries terms := by
  induction entries generalizing terms with
  | nil =>
    obtain rfl := List.map_eq_nil_iff.1 hterms
    exact .nil
  | cons e entries ih =>
    obtain ⟨he, hentries⟩ := List.forall_mem_cons.1 hknown
    cases terms with
    | nil => cases hterms
    | cons t terms =>
      obtain ⟨hfirst, hrest⟩ := List.cons.inj hterms
      obtain ⟨hid, hcoeff⟩ := Prod.mk.inj hfirst
      refine .cons ⟨?_, hcoeff⟩ (ih hentries hrest)
      rw [hid]
      exact List.getElem?_idxOf he

namespace Describes

/-- The comparisons that the reader keeps are those of the facts. -/
lemma constrs_eq (h : Describes facts m) : m.constrs = (comparisonsOf facts).map fun row =>
    ⟨numbered facts (entriesOf facts row.2), row.1, rhsOf facts row.2⟩ := by
  rw [Model.constrs, h.rows, comparisonsOf, List.filterMap_map, List.map_filterMap]
  refine List.filterMap_congr fun row _ => ?_
  obtain ⟨_ | rel, name⟩ := row
  · by_cases hfirst : firstObjective? facts = some name <;> simp [rowOf, rowKindOf, hfirst]
  · rfl

/-- The objective that the reader keeps is that of the facts. -/
lemma objective_eq (h : Describes facts m) :
    m.objective = numbered facts (objectiveOf facts) := by
  rw [Model.objective, objectiveOf]
  cases hfind : m.rows.find? (·.kind = .objective) with
  | none =>
    have hany : m.rows.any (·.kind = .objective) = false := by
      simpa using List.find?_eq_none.1 hfind
    rw [h.any_objective, Option.isSome_eq_false_iff, Option.isNone_iff_eq_none] at hany
    rw [hany]
    rfl
  | some r =>
    have hkind := List.find?_some hfind
    have hmem := List.mem_of_find?_eq_some hfind
    rw [h.rows] at hmem
    obtain ⟨row, hrow, rfl⟩ := List.mem_map.1 hmem
    rw [(h.rowKindOf_eq_objective hrow).1 (of_decide_eq_true hkind)]
    rfl

/-- What is built of what the reader keeps is the matrix of the facts. -/
lemma isMatrix (h : Describes facts m)
    (hbuild : build settings m.name m.cols m.constrs m.direction m.objective = .ok inst) :
    IsMatrix facts inst := by
  have hbuilt := built_of_build hbuild
  have hknown : ∀ row, ∀ e ∈ entriesOf facts row, e.1 ∈ columnsOf facts :=
    fun row e he => (known_of_mem_entriesOf h.known he).1
  refine ⟨hbuilt.name.trans h.name, ?_, ?_, ?_, hbuilt.direction.trans h.direction, ?_⟩
  · rw [← h.columns, ← List.forall₂_eq_eq_eq, List.forall₂_map_left_iff,
      List.forall₂_map_right_iff]
    exact hbuilt.columns.flip.imp fun x c hc => hc.name
  · have hids := hbuilt.numbered
    rwa [Numbered, List.map_map, List.length_map] at hids
  · have hconstrs := hbuilt.constrs
    rw [h.constrs_eq, List.forall₂_map_left_iff] at hconstrs
    exact hconstrs.imp fun row c hc =>
      ⟨areTerms_of_numbered (hknown row.2) hc.terms, hc.rel, hc.rhs⟩
  · have hobjective := hbuilt.objective
    rw [h.objective_eq] at hobjective
    refine areTerms_of_numbered ?_ hobjective
    rw [objectiveOf]
    cases firstObjective? facts with
    | none => exact List.forall_mem_nil _
    | some row => exact hknown row

/-- The table that is built of facts is built of them wherever they stand, and also if all columns
are taken as integer or only those that are marked, as long as every column is one of them. -/
lemma build_congr (h : Describes facts m) (h' : Describes facts m') {allInteger : Bool}
    (hbuild : build settings m.name m.cols m.constrs m.direction m.objective = .ok inst)
    (hinteger : ∀ col ∈ columnsOf facts, allInteger = true ∨ MarkedInteger facts col) :
    build { settings with allInteger } m'.name m'.cols m'.constrs m'.direction m'.objective =
      .ok inst := by
  rw [h'.name, h'.constrs_eq, h'.direction, h'.objective_eq, ← h.name, ← h.constrs_eq,
    ← h.direction, ← h.objective_eq]
  refine Table.build_congr ?_ hbuild
  have hnames : m.cols.map (·.name) = m'.cols.map (·.name) := h.columns.trans h'.columns.symm
  rw [← List.forall₂_eq_eq_eq, List.forall₂_map_left_iff, List.forall₂_map_right_iff,
    List.forall₂_iff_get] at hnames
  refine List.forall₂_iff_get.2 ⟨hnames.1, fun i hi hi' => ?_⟩
  have hname := hnames.2 i hi hi'
  generalize hc : m.cols.get ⟨i, hi⟩ = c at hname ⊢
  generalize hc' : m'.cols.get ⟨i, hi'⟩ = c' at hname ⊢
  have hmem : c ∈ m.cols := hc ▸ List.get_mem ..
  have hmem' : c' ∈ m'.cols := hc' ▸ List.get_mem ..
  have hbounds := h.bounds c hmem
  have hbounds' := hname ▸ h'.bounds c' hmem'
  refine ⟨hname.symm, fun d hd => ?_⟩
  refine Column.domain_eq_ok hd hname.symm (hbounds'.binary.trans hbounds.binary.symm)
    (hbounds'.lower.trans hbounds.lower.symm) (hbounds'.upper.trans hbounds.upper.symm) rfl ?_
  have hcol : c'.name ∈ columnsOf facts := h'.columns ▸ List.mem_map_of_mem hmem'
  rw [h'.integer c' hmem']
  exact (hinteger _ hcol).symm

/-- The columns of a table that is built are integer, each one marked so or all of them together. -/
lemma marked_of_build (h : Describes facts m)
    (hbuild : build settings m.name m.cols m.constrs m.direction m.objective = .ok inst) :
    ∀ col ∈ columnsOf facts, settings.allInteger = true ∨ MarkedInteger facts col := by
  have hdomains : ∀ c ∈ m.cols, ∃ d, c.domain settings = .ok d :=
    (List.forall₂_and_left m.cols inst.vars).1
      ((built_of_build hbuild).columns.imp fun c x hc => ⟨⟨x.domain, hc.domain⟩, hc⟩) |>.1
  intro col hcol
  rw [← h.columns] at hcol
  obtain ⟨c, hc, rfl⟩ := List.mem_map.1 hcol
  obtain ⟨d, hd⟩ := hdomains c hc
  rw [← h.integer c hc]
  exact (Column.integer_of_domain hd).symm

end Describes

/-! ## The reader -/

/-- The settings are those of the options. -/
lemma ofOptions_ok {opts : Options} {component : String}
    (h : Table.Settings.ofOptions opts component = .ok settings) :
    ∃ allInteger, opts.getBool "all_integer" = .ok allInteger ∧
      settings.allInteger = allInteger.getD false := by
  obtain ⟨-, -, h⟩ := bind_eq_ok.1 h
  obtain ⟨defaultUpper, -, h⟩ := bind_eq_ok.1 h
  obtain ⟨allInteger, hall, h⟩ := bind_eq_ok.1 h
  exact ⟨allInteger, hall, by rw [← Except.ok.inj h]⟩

/-- A new reader hands out what is decoded. -/
lemma next_eq_ok {settings : Table.Settings} :
    (∃ r input', Reader.next ⟨.mps settings, {}⟩ input = (.ok (some inst), r, input')) ↔
      (decode settings input).1 = .ok inst := by
  constructor
  · rintro ⟨r, input', h⟩
    obtain ⟨-, -, hdecode⟩ := Reader.next_ok h
    obtain ⟨inst', hinst, heq⟩ := map_eq_ok.1 (Prod.mk.inj hdecode).1
    obtain rfl := Option.some.inj (Prod.mk.inj heq).1
    exact hinst
  · intro h
    rw [Reader.next, if_neg Bool.false_ne_true]
    have hdecode : InputFormat.decode (.mps settings) input =
        (.ok (some inst, (decode settings input).2.cursor true), (decode settings input).2) := by
      show ((decode settings input).1.map _, _) = _
      rw [h]
      rfl
    simp only [hdecode]
    exact ⟨_, _, rfl⟩

/-- **The reader builds the matrix of the file.**  A text that is accepted says facts, and only
these.  The instance is the matrix that they describe: its variables are the columns in the order in
which they first appear, with ids from zero on, its constraints are the rows with a comparison, the
terms of a row are its entries in order, its right-hand side is the last one that is given or zero,
and the objective has the entries of the first row without a comparison.

A text that says the same facts, in whatever lines, is read as the same instance if every column is
marked as integer, by a marker or by a bound, or all columns are taken as integer; otherwise it is
refused. -/
theorem next_isMatrix {opts : Options} {f : InputFormat} {content : List UInt8} {seekable : Bool}
    {chunk : ℕ} {inst : Instance} {r : Reader} {input : InputStream}
    (hconfigure : ReaderKind.mps.configure opts = .ok f)
    (h : Reader.next ⟨f, {}⟩ (.ofBytes content seekable chunk) = (.ok (some inst), r, input)) :
    ∃ settings allInteger facts, f = .mps settings ∧
      opts.getBool "all_integer" = .ok allInteger ∧ settings.allInteger = allInteger.getD false ∧
      Written content facts ∧ (∀ facts', Written content facts' → facts' = facts) ∧
      IsMatrix facts inst ∧
      ∀ content' seekable' chunk' allInteger', Written content' facts →
        ((∃ r' input', Reader.next ⟨.mps { settings with allInteger := allInteger' }, {}⟩
            (.ofBytes content' seekable' chunk') = (.ok (some inst), r', input')) ↔
          ∀ col ∈ columnsOf facts, allInteger' = true ∨ MarkedInteger facts col) := by
  obtain ⟨settings, hsettings, rfl⟩ := map_eq_ok.1 hconfigure
  obtain ⟨allInteger, hoption, hall⟩ := ofOptions_ok hsettings
  -- the facts of a text are unique, so what any text is read as is determined by them
  obtain ⟨facts, m, hwritten, hfit, hm, hbuild⟩ :=
    build_of_decode (Prod.ext (next_eq_ok.1 ⟨r, input, h⟩) rfl)
  rw [InputStream.ofBytes, ByteSource.rest_ofBytes] at hwritten
  refine ⟨settings, allInteger, facts, rfl, hoption, hall, hwritten, fun facts' => hwritten.unique,
    hm.isMatrix hbuild, fun content' seekable' chunk' allInteger' hwritten' => ?_⟩
  rw [next_eq_ok]
  constructor
  · intro hread
    obtain ⟨facts', m', hfacts', -, hm', hbuild'⟩ := build_of_decode (Prod.ext hread rfl)
    rw [InputStream.ofBytes, ByteSource.rest_ofBytes] at hfacts'
    obtain rfl := hwritten'.unique hfacts'
    exact hm'.marked_of_build hbuild'
  · intro hinteger
    have hrest : (InputStream.ofBytes content' seekable' chunk').source.rest = content' :=
      ByteSource.rest_ofBytes ..
    obtain ⟨m', input', hm', hdecode⟩ := decode_of_written
      { settings with allInteger := allInteger' } (hrest.symm ▸ hwritten') hfit
    rw [hdecode]
    exact hm.build_congr hm' hbuild hinteger

/-- A column with an entry in the objective and one in a row, which is integer because of its bound.
The names of the set of right-hand sides and of the set of bounds can be left out. -/
theorem next_isMatrix_binary :
    let format : InputFormat := .mps {}
    let content := bytesOf
      "ROWS\n N c\n G a\nCOLUMNS\n x c 1 a 2\nRHS\n R a 3\nBOUNDS\n BV S x\nENDATA\n"
    let bare := bytesOf
      "ROWS\n N c\n G a\nCOLUMNS\n x c 1 a 2\nRHS\n a 3\nBOUNDS\n BV x\nENDATA\n"
    let facts : List Fact := [.part .rows, .row none "c", .row (some .ge) "a", .part .columns,
      .column "x", .entry "x" "c" 1, .entry "x" "a" (.ofWord 2), .part .rhs,
      .rhs "a" (.ofWord 3), .part .bounds, .bound .binary "x" none, .part .finished]
    ReaderKind.mps.configure .empty = .ok format ∧ Written content facts ∧ Written bare facts ∧
      columnsOf facts = ["x"] ∧ objectiveOf facts = [("x", 1)] ∧
      comparisonsOf facts = [(.ge, "a")] ∧ entriesOf facts "a" = [("x", .ofWord 2)] ∧
      rhsOf facts "a" = .ofWord 3 ∧
      ∃ inst r input r' input',
        Reader.next ⟨format, {}⟩ (.ofBytes content false 1) = (.ok (some inst), r, input) ∧
        IsMatrix facts inst ∧
        Reader.next ⟨format, {}⟩ (.ofBytes bare true 8) = (.ok (some inst), r', input') := by
  intro format content bare facts
  have hconfigure : ReaderKind.mps.configure .empty = .ok format := rfl
  -- the lines of both files, which differ only in the names of the sets
  have hrows : Says .preamble "ROWS\n" [.part .rows] :=
    .header (show trimRight "ROWS\n".toList = 'R' :: "OWS".toList by decide) (by decide)
      (by decide) rfl rfl (.bare (by decide))
  have hobjective : Says .rows " N c\n" [.row none "c"] :=
    .data (show trimRight " N c\n".toList = ' ' :: "N c".toList by decide) (by decide)
      (show DataSays .rows ["N".toList, "c".toList] _ from .row (by decide))
  have hrow : Says .rows " G a\n" [.row (some .ge) "a"] :=
    .data (show trimRight " G a\n".toList = ' ' :: "G a".toList by decide) (by decide)
      (show DataSays .rows ["G".toList, "a".toList] _ from .row (by decide))
  have hcolumns : Says .rows "COLUMNS\n" [.part .columns] :=
    .header (show trimRight "COLUMNS\n".toList = 'C' :: "OLUMNS".toList by decide) (by decide)
      (by decide) rfl rfl (.bare (by decide))
  have htokens : ∀ p ∈ [("c".toList, "1".toList), ("a".toList, "2".toList)].head?,
      upper p.1 ≠ "'MARKER'".toList := by decide
  have hvalues : List.Forall₂ Gives [("c".toList, "1".toList), ("a".toList, "2".toList)]
      [("c", 1), ("a", .ofWord 2)] :=
    .cons ⟨rfl, by decide +kernel⟩ (.cons ⟨rfl, by decide +kernel⟩ .nil)
  have hcolumn : Says .columns " x c 1 a 2\n"
      [.column "x", .entry "x" "c" 1, .entry "x" "a" (.ofWord 2)] :=
    .data (show trimRight " x c 1 a 2\n".toList = ' ' :: "x c 1 a 2".toList by decide) (by decide)
      (show DataSays .columns ("x".toList :: fieldsOf _) _ from
        .column htokens (.inr rfl) hvalues)
  have hrhs : Says .columns "RHS\n" [.part .rhs] :=
    .header (show trimRight "RHS\n".toList = 'R' :: "HS".toList by decide) (by decide)
      (by decide) rfl rfl (.bare (by decide))
  have hvalue : List.Forall₂ Gives [("a".toList, "3".toList)] [("a", .ofWord 3)] :=
    .cons ⟨rfl, by decide +kernel⟩ .nil
  have hnamed : Says .rhs " R a 3\n" [.rhs "a" (.ofWord 3)] :=
    .data (show trimRight " R a 3\n".toList = ' ' :: "R a 3".toList by decide) (by decide)
      (show DataSays .rhs ("R".toList :: fieldsOf _) _ from .rhsOfSet (List.cons_ne_nil _ _) hvalue)
  have hplain : Says .rhs " a 3\n" [.rhs "a" (.ofWord 3)] :=
    .data (show trimRight " a 3\n".toList = ' ' :: "a 3".toList by decide) (by decide)
      (show DataSays .rhs (fieldsOf _) _ from .rhs (List.cons_ne_nil _ _) hvalue)
  have hbounds : Says .rhs "BOUNDS\n" [.part .bounds] :=
    .header (show trimRight "BOUNDS\n".toList = 'B' :: "OUNDS".toList by decide) (by decide)
      (by decide) rfl rfl (.bare (by decide))
  have hnamedBound : Says .bounds " BV S x\n" [.bound .binary "x" none] :=
    .data (show trimRight " BV S x\n".toList = ' ' :: "BV S x".toList by decide) (by decide)
      (show DataSays .bounds ("BV".toList :: "S".toList :: "x".toList :: none.toList) _ from
        .boundOfSet (by decide) rfl rfl)
  have hplainBound : Says .bounds " BV x\n" [.bound .binary "x" none] :=
    .data (show trimRight " BV x\n".toList = ' ' :: "BV x".toList by decide) (by decide)
      (show DataSays .bounds ("BV".toList :: "x".toList :: none.toList) _ from
        .bound (by decide) rfl rfl)
  have hend : Says .bounds "ENDATA\n" [.part .finished] :=
    .header (show trimRight "ENDATA\n".toList = 'E' :: "NDATA".toList by decide) (by decide)
      (by decide) rfl rfl (.bare (by decide))
  have hwritten : Written content facts :=
    ⟨["ROWS\n", " N c\n", " G a\n", "COLUMNS\n", " x c 1 a 2\n", "RHS\n", " R a 3\n", "BOUNDS\n",
      " BV S x\n", "ENDATA\n"], by decide +kernel,
      .line hrows (by decide) (.line hobjective (by decide) (.line hrow (by decide)
        (.line hcolumns (by decide) (.line hcolumn (by decide) (.line hrhs (by decide)
          (.line hnamed (by decide) (.line hbounds (by decide)
            (.line hnamedBound (by decide) (.ending hend rfl)))))))))⟩
  have hbare : Written bare facts :=
    ⟨["ROWS\n", " N c\n", " G a\n", "COLUMNS\n", " x c 1 a 2\n", "RHS\n", " a 3\n", "BOUNDS\n",
      " BV x\n", "ENDATA\n"], by decide +kernel,
      .line hrows (by decide) (.line hobjective (by decide) (.line hrow (by decide)
        (.line hcolumns (by decide) (.line hcolumn (by decide) (.line hrhs (by decide)
          (.line hplain (by decide) (.line hbounds (by decide)
            (.line hplainBound (by decide) (.ending hend rfl)))))))))⟩
  have hread : (Reader.next ⟨format, {}⟩ (.ofBytes content false 1)).1.toOption.join.isSome =
      true := by decide +kernel
  obtain ⟨inst, hinst⟩ := exists_eq_ok_some hread
  rcases hnext : Reader.next ⟨format, {}⟩ (.ofBytes content false 1) with ⟨outcome, r, input⟩
  obtain rfl : outcome = .ok (some inst) := by rw [← hinst, hnext]
  obtain ⟨settings, allInteger, facts', hformat, hoption, hall, -, hunique, hmatrix, hsame⟩ :=
    next_isMatrix hconfigure hnext
  obtain rfl := hunique facts hwritten
  obtain rfl := InputFormat.mps.inj hformat
  have hmarked : ∀ col ∈ columnsOf facts, false = true ∨ MarkedInteger facts col := by
    intro col hcol
    obtain rfl : col = "x" := List.mem_singleton.1 hcol
    exact .inr (.inr ⟨.binary, none, by simp [facts], rfl⟩)
  obtain ⟨r', input', hsame⟩ := (hsame bare true 8 false hbare).2 hmarked
  refine ⟨hconfigure, hwritten, hbare, by decide, by decide +kernel, by decide, by decide +kernel,
    by decide +kernel, inst, r, input, r', input', rfl, hmatrix, hsame⟩

end LinearInterchange.Mps
