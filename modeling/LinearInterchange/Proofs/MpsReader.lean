import LinearInterchange.Format.Mps.Reader
import LinearInterchange.Proofs.StreamReading
import LinearInterchange.Proofs.TableColumns

/-!
# What the reader of free MPS accepts

The reader numbers the rows and the columns of a file and looks them up by number later on.  Its
model is valid as long as columns can become variables, the entries of all rows are over columns
that are there, and the name of the file can stand behind a keyword.  No line makes a valid model
invalid, and no line of a valid model is refused for anything but what stands on it.
-/

namespace LinearInterchange.Mps

open Text Table Columns

variable {m : Model} {n : ℕ} {pos : Position}

/-- The fault is found in the text. -/
def Fault.IsOrdinary (f : Fault) : Prop :=
  f.refusal.IsOrdinary

/-- What was read so far makes an instance. -/
structure Model.Valid (m : Model) : Prop where
  /-- Columns can become variables. -/
  cols : m.cols.Valid
  /-- The entries of rows are over columns that are there. -/
  rows : ∀ r ∈ m.rows, m.cols.Covers r.entries
  /-- The name can stand behind a keyword. -/
  title : ∀ s ∈ m.name, IsTitle s.toList

/-! ## Tokens -/

lemma readCoeff_settles (token : List Char) :
    Settles Fault.IsOrdinary (fun _ => True) (readCoeff token) :=
  (Settles.trivial _).mapError fun fault _ => isOrdinary_number token fault

/-- An even number of fields makes pairs. -/
lemma pairs_settles {fields : List (List Char)} (h : fields.length % 2 = 0) :
    Settles Fault.IsOrdinary (fun _ => True) (pairs fields) := by
  fun_induction pairs fields with
  | case1 => exact True.intro
  | case2 field => exact absurd h (by simp)
  | case3 row value rest ih =>
    rw [List.length_cons, List.length_cons] at h
    exact Settles.map (ih (by omega)) fun _ _ => True.intro

/-- A bound is a number, or it is refused as none. -/
lemma readBound_settles (token : List Char) :
    Settles Fault.IsOrdinary (fun _ => True) (Model.readBound token) := by
  simp only [Model.readBound]
  split
  · exact True.intro
  · split
    · exact True.intro
    · exact Settles.map (readCoeff_settles token) fun _ _ => True.intro

/-- A word announces a direction, or it is refused. -/
lemma readSense_settles (word : List Char) :
    Settles Fault.IsOrdinary (fun _ => True) (Model.readSense word) := by
  unfold Model.readSense
  split
  · exact True.intro
  · split
    · exact True.intro
    · rintro a ⟨⟩

lemma readKeyword_settles (keyword : List Char) :
    Settles Fault.IsOrdinary (fun _ => True) (Model.readKeyword keyword) := by
  unfold Model.readKeyword
  split <;> first | exact True.intro | rintro a ⟨⟩

lemma boundFields_settles (kind : List Char) (fields : List (List Char)) :
    Settles Fault.IsOrdinary (fun _ => True) (Model.boundFields kind fields) := by
  simp only [Model.boundFields]
  split <;> first | exact True.intro | rintro a ⟨⟩

/-- No kind of bound changes the name or the place of a column. -/
lemma boundAction_settles (kind : List Char) (value : Option Coeff) :
    Settles Fault.IsOrdinary Keeps (Model.boundAction kind value) := by
  unfold Model.boundAction
  split <;> first | exact fun _ => ⟨rfl, rfl⟩ | rintro a ⟨⟩

namespace Model

/-! ## Rows and columns -/

/-- A row that is found is there. -/
lemma rowNumber_settles (m : Model) (name : List Char) :
    Settles Fault.IsOrdinary (· < m.rows.length) (m.rowNumber name) := by
  unfold rowNumber
  split
  next k hk =>
    obtain ⟨hlt, -, -⟩ := List.findIdx?_eq_some_iff_getElem.1 hk
    exact hlt
  next => rintro a ⟨⟩

/-- A row that is there can be changed if its entries stay in range. -/
lemma updateRow_settles (h : m.Valid) (hn : n < m.rows.length) {f : Row → Row}
    (hf : ∀ r, m.cols.Covers r.entries → m.cols.Covers (f r).entries) :
    Settles Fault.IsOrdinary (fun m' => m'.Valid ∧ m'.cols = m.cols) (m.updateRow n f) := by
  rw [updateRow, if_pos hn]
  refine ⟨{ h with rows := fun r hr => ?_ }, rfl⟩
  obtain ⟨b, hb, hrb⟩ := mem_modify hr
  rcases hrb with rfl | rfl
  · exact h.rows r hb
  · exact hf b (h.rows b hb)

/-- A column that is there can be changed if it keeps its name and its place. -/
lemma updateColumn_settles (h : m.Valid) (hn : n < m.cols.length) {f : Column → Column}
    (hf : Keeps f) :
    Settles Fault.IsOrdinary (fun m' => m'.Valid ∧ m'.cols.length = m.cols.length)
      (m.updateColumn n f) := by
  refine Settles.bind (P := fun cols => cols.Valid ∧ cols.length = m.cols.length)
    ((update_settles h.cols hn hf).mapError fun _ he => he.elim) fun cols ⟨hcols, hlength⟩ => ?_
  exact ⟨⟨hcols, fun r hr => (h.rows r hr).mono hlength.ge, h.title⟩, hlength⟩

/-- A new row has no entries. -/
lemma addRow_settles (h : m.Valid) (fields : List (List Char)) :
    Settles Fault.IsOrdinary Valid (m.addRow fields) := by
  unfold addRow
  split
  next kind name =>
    refine Settles.bind (P := fun _ => True) ?_ fun k _ => ?_
    · unfold rowKind
      repeat' split
      all_goals first | exact True.intro | rintro a ⟨⟩
    · simp only
      split
      · rintro a ⟨⟩
      · refine { h with rows := List.forall_mem_append.2 ⟨h.rows, ?_⟩ }
        exact List.forall_mem_singleton.2 (List.forall_mem_nil _)
  next => rintro a ⟨⟩

/-! ## Lines with data -/

/-- A marker begins or ends a block, or it is refused. -/
lemma mark_settles (h : m.Valid) (kind : List Char) :
    Settles Fault.IsOrdinary Valid (m.mark kind) := by
  unfold mark
  split
  · exact { h with }
  · split
    · exact { h with }
    · rintro a ⟨⟩

/-- An entry of a column that is there is added to a row, or it is refused. -/
lemma addEntry_settles (h : m.Valid) (hn : n < m.cols.length) (entry : List Char × List Char) :
    Settles Fault.IsOrdinary (fun m' => m'.Valid ∧ n < m'.cols.length) (addEntry n m entry) := by
  refine Settles.bind (readCoeff_settles entry.2) fun coeff _ => ?_
  refine Settles.bind (m.rowNumber_settles entry.1) fun k hk => ?_
  refine (updateRow_settles h hk fun r hr => hr.append_entry hn coeff).mono ?_
  exact fun m' ⟨hm', hcols⟩ => ⟨hm', hcols ▸ hn⟩

/-- Entries of a column that is there are added one after another; no other column takes its
place. -/
lemma addEntries_settles (h : m.Valid) (hn : n < m.cols.length) {entries : List (List Char)}
    (heven : entries.length % 2 = 0) :
    Settles Fault.IsOrdinary Valid (pairs entries >>= fun es => es.foldlM (addEntry n) m) := by
  refine Settles.bind (pairs_settles heven) fun es _ => ?_
  have hall : Settles Fault.IsOrdinary (fun m' : Model => m'.Valid ∧ n < m'.cols.length)
      (es.foldlM (addEntry n) m) :=
    Settles.foldlM ⟨h, hn⟩ fun e _ m' hm' => addEntry_settles hm'.1 hm'.2 e
  exact hall.mono fun m' hm' => hm'.1

/-- The name of a column is looked up or becomes a new column. -/
lemma Valid.ensure (h : m.Valid) {name : String} (hword : IsWord name.toList)
    (hpos : 1 ≤ pos.line) :
    Valid { m with cols := (m.cols.ensure name pos).2 } ∧
      (m.cols.ensure name pos).1 < (m.cols.ensure name pos).2.length := by
  obtain ⟨hlt, hcols, hle⟩ := ensure_spec h.cols hword hpos
  exact ⟨⟨hcols, fun r hr => (h.rows r hr).mono hle, h.title⟩, hlt⟩

/-- A line of the columns section adds entries to rows, or it is refused. -/
lemma addColumn_settles (h : m.Valid) (hpos : 1 ≤ pos.line) {fields : List (List Char)}
    (hwords : ∀ w ∈ fields, IsWord w) :
    Settles Fault.IsOrdinary Valid (m.addColumn pos fields) := by
  unfold addColumn
  split
  next kind hmarker => exact mark_settles h kind
  next hmarker =>
    split
    next col entries =>
      have hcol := hwords col List.mem_cons_self
      obtain ⟨hvalid, hlt⟩ := h.ensure hcol.ofList hpos
      split
      · rintro a ⟨⟩
      next hlength =>
        have heven : entries.length % 2 = 0 := by omega
        simp only
        split
        · refine Settles.bind (updateColumn_settles hvalid hlt fun _ => ⟨rfl, rfl⟩) ?_
          exact fun m' ⟨hm', hkept⟩ => addEntries_settles hm' (hkept ▸ hlt) heven
        · exact addEntries_settles hvalid hlt heven
    next => rintro a ⟨⟩

/-- A right-hand side is set, or it is refused. -/
lemma setRhs_settles (h : m.Valid) (entry : List Char × List Char) :
    Settles Fault.IsOrdinary Valid (m.setRhs entry) := by
  refine Settles.bind (readCoeff_settles entry.2) fun value _ => ?_
  refine Settles.bind (m.rowNumber_settles entry.1) fun k hk => ?_
  refine Settles.bind (P := fun _ => True) ?_ fun r _ => ?_
  · rw [row, List.getElem?_eq_getElem hk]
    exact True.intro
  · split
    · split
      · exact h
      · rintro a ⟨⟩
    · exact h
    · refine (updateRow_settles h hk ?_).mono fun _ hm' => hm'.1
      exact fun _ hr => hr

/-- A line of right-hand sides is taken up, or it is refused. -/
lemma addRhs_settles (h : m.Valid) (fields : List (List Char)) :
    Settles Fault.IsOrdinary Valid (m.addRhs fields) := by
  -- the fields are even in number when the name of the set is left out
  have heven : (if fields.length % 2 = 1 then fields.tail else fields).length % 2 = 0 := by
    split
    · rw [List.length_tail]
      omega
    · omega
  simp only [addRhs]
  generalize (if fields.length % 2 = 1 then fields.tail else fields) = numbers at heven ⊢
  split
  · rintro a ⟨⟩
  · refine Settles.bind (pairs_settles heven) fun es _ => ?_
    exact Settles.foldlM h fun e _ m' hm' => setRhs_settles hm' e

/-- A bound changes a column that is there, or it is refused. -/
lemma addBound_settles (h : m.Valid) (fields : List (List Char)) :
    Settles Fault.IsOrdinary Valid (m.addBound fields) := by
  unfold addBound
  split
  · rintro a ⟨⟩
  next kind fields =>
    refine Settles.bind (boundFields_settles (upper kind) fields) fun ⟨col, token⟩ _ => ?_
    simp only
    split
    · rintro a ⟨⟩
    next k hk =>
      have hset : ∀ value, True → Settles Fault.IsOrdinary Valid
          (boundAction (upper kind) value >>= m.updateColumn k) := by
        intro value _
        refine Settles.bind (boundAction_settles (upper kind) value) fun f hf => ?_
        exact (updateColumn_settles h (number?_lt hk) hf).mono fun _ hm' => hm'.1
      cases token with
      | none => exact hset none True.intro
      | some token => exact Settles.bind (readBound_settles token) hset

/-- A line with data has fields, which are words. -/
lemma addData_settles (h : m.Valid) (hpos : 1 ≤ pos.line) {fields : List (List Char)}
    (hne : fields ≠ []) (hwords : ∀ w ∈ fields, IsWord w) :
    Settles Fault.IsOrdinary Valid (m.addData pos fields) := by
  unfold addData
  split
  · rintro a ⟨⟩
  · rintro a ⟨⟩
  · rintro a ⟨⟩
  · split
    next => exact absurd rfl hne
    next word _ =>
      refine Settles.bind (readSense_settles word) fun direction _ => ?_
      exact { h with }
  · exact addRow_settles h fields
  · exact addColumn_settles h hpos hwords
  · exact addRhs_settles h fields
  · exact addBound_settles h fields

/-! ## Lines -/

/-- What follows the keyword of a header on its line is a name, if it is anything. -/
lemma addHeader_settles (h : m.Valid) {cs : List Char} (hfeed : '\n' ∉ cs) :
    Settles Fault.IsOrdinary Valid (m.addHeader cs) := by
  have hrest : '\n' ∉ ((splitFirst isBlank cs).getD (cs, [])).2 := by
    cases hsplit : splitFirst isBlank cs with
    | none => exact List.not_mem_nil
    | some r =>
      obtain ⟨c, -, heq⟩ := eq_append_of_splitFirst hsplit
      rw [heq] at hfeed
      exact fun hmem => hfeed (List.mem_append_right _ (List.mem_cons_of_mem _ hmem))
  unfold addHeader
  generalize (splitFirst isBlank cs).getD (cs, []) = r at hrest ⊢
  obtain ⟨keyword, rest⟩ := r
  refine Settles.bind (readKeyword_settles keyword) fun part _ => ?_
  simp only
  split
  · refine { h with title := ?_ }
    split
    · rintro s ⟨⟩
    next hne =>
      have htitle : IsTitle (trim rest) :=
        ⟨by simpa using hne, trim_trim rest, fun hmem => hrest (mem_of_mem_trim hmem)⟩
      rintro s ⟨⟩
      exact htitle.ofList
  · exact { h with }
  · split
    · exact { h with }
    · refine Settles.bind (readSense_settles (trim rest)) fun direction _ => ?_
      exact { h with }
  · split
    · exact { h with }
    · rintro a ⟨⟩

/-- A line keeps the model valid, or it is refused for what stands on it. -/
lemma addText_settles (h : m.Valid) (hpos : 1 ≤ pos.line) {text : String}
    (hline : InputStream.IsLine text.toList) :
    Settles Fault.IsOrdinary Valid (m.addText pos text) := by
  simp only [addText]
  split
  · exact h
  · exact h
  next c cs hnonempty heq =>
    split
    · have hne : trimRight text.toList ≠ [] := heq ▸ List.cons_ne_nil c cs
      have hwords : words (trimRight text.toList) ≠ [] :=
        words_ne_nil (List.getLast_mem hne) (isBlank_getLast_trimRight hne)
      exact addData_settles h hpos hwords fun w hw => isWord_of_mem_words hw
    · exact addHeader_settles h hline.not_mem_trimRight

/-- The constraints and the objective of a valid model are over columns that are there. -/
lemma Valid.covers (h : m.Valid) :
    (∀ c ∈ m.constrs, m.cols.Covers c.entries) ∧ m.cols.Covers m.objective := by
  constructor
  · intro c hc
    obtain ⟨r, hr, hrc⟩ := List.mem_filterMap.1 hc
    split at hrc
    · cases hrc
      exact h.rows r hr
    · cases hrc
  · unfold objective
    cases hfind : m.rows.find? (·.kind = .objective) with
    | none => exact List.forall_mem_nil _
    | some r => exact h.rows r (List.mem_of_find?_eq_some hfind)

end Model

/-! ## Streams -/

/-- What the reader does with a line. -/
def step (m : Model) (pos : Position) (text : String) :
    Except ReadError (InputStream.LineStep Model) :=
  (pos.report Fault.refusal (m.addText pos text)).map fun m =>
    if m.part = .finished then InputStream.LineStep.done m else .more m

/-- What the reader makes of the model after the last line. -/
def finish (settings : Table.Settings) (m : Model) (last : Position) : Except ReadError Instance :=
  if m.part = .finished then build settings m.name m.cols m.constrs m.direction m.objective
  else last.report Fault.refusal (.error .noEnd)

/-- The instance is that of the model after the last line. -/
lemma decode_eq (settings : Table.Settings) (input : InputStream) :
    decode settings input =
      input.readThrough step {} fun _ r _ => finish settings r.1 r.2 := by
  unfold decode InputStream.readThrough
  delta step
  dsimp only
  generalize InputStream.foldLines _ ({} : Model) input.position input = r
  obtain ⟨outcome, input'⟩ := r
  cases outcome with
  | error e => rfl
  | ok r =>
    dsimp only
    rw [finish]
    split <;> rfl

lemma uniform_decode (settings : Table.Settings) : InputStream.Uniform (decode settings) := by
  rw [funext (decode_eq settings)]
  exact InputStream.uniform_readThrough _ _ _

/-- A stream is read as a sound instance, or it is refused for what stands on one of its lines. -/
lemma reading_decode (settings : Table.Settings) (input : InputStream) :
    InputStream.Reading Instance.Sound input (decode settings input) := by
  have hempty : Model.Valid {} :=
    ⟨List.forall_mem_nil _, List.forall_mem_nil _, by simp⟩
  have hstep : ∀ (m : Model) (pos : Position) (text : String), m.Valid → 1 ≤ pos.line →
      InputStream.IsLine text.toList → Settles ReadError.IsRefusal
        (InputStream.LineStep.LeadsTo Model.Valid Model.Valid) (step m pos text) := by
    intro m pos text hm hpos hline
    refine Settles.map ((Model.addText_settles hm hpos hline).report hpos) fun m' hm' => ?_
    split <;> exact hm'
  rw [decode_eq]
  refine InputStream.reading_readThrough hstep (fun base r ending _ _ hr hlast => ?_) hempty input
  have hm : r.1.Valid := or_self_iff.1 hr
  unfold finish
  split
  · exact build_settles settings hm.title hm.cols hm.covers.1 r.1.direction hm.covers.2
  · refine ⟨hlast, ?_⟩
    rintro a ⟨⟩

end LinearInterchange.Mps
