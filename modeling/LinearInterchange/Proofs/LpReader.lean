import LinearInterchange.Format.Lp.Reader
import LinearInterchange.Proofs.LpStatements
import LinearInterchange.Proofs.StreamReading

/-!
# What the reader of the LP format accepts

A line that begins with a keyword ends the section before it, so that the tokens that were kept are
read then.  The reader stops at the end that the file announces, so no line is read in the section
that comes after it; and the keywords are ASCII texts, so that the text of a line can be cut where
its keyword is at its end.
-/

namespace LinearInterchange.Lp

open Text Table Columns

variable {m : Model} {pos : Position}

/-! ## Keywords -/

/-- A character takes one byte if it does in lower case. -/
lemma utf8Size_of_toLower {c : Char} (h : c.toLower.utf8Size = 1) : c.utf8Size = 1 := by
  rw [Char.utf8Size_eq_one_iff, UInt32.le_iff_toNat_le] at h ⊢
  unfold Char.toLower at h
  split at h
  next hupper => exact Nat.le_trans (UInt32.le_iff_toNat_le.1 hupper.2) (by decide)
  next => exact h

/-- A text that begins with an ASCII word, in any case, can be cut behind the word. -/
lemma exists_dropBytes? {word cs : List Char} (hword : ∀ c ∈ word, c.utf8Size = 1)
    (h : word <+: lower cs) : ∃ rest, dropBytes? word.length cs = some rest := by
  induction word generalizing cs with
  | nil => exact ⟨cs, dropBytes?.eq_1 cs⟩
  | cons w word ih =>
    cases cs with
    | nil => exact absurd (List.prefix_nil.1 h) (List.cons_ne_nil w word)
    | cons c cs =>
      obtain ⟨hw, hrest⟩ := List.forall_mem_cons.1 hword
      rw [lower, List.map_cons, List.cons_prefix_cons] at h
      obtain ⟨rfl, h⟩ := h
      obtain ⟨rest, heq⟩ := ih hrest h
      refine ⟨rest, ?_⟩
      rw [List.length_cons, dropBytes?, utf8Size_of_toLower hw, if_pos (Nat.le_add_left ..)]
      exact heq

/-- A line can be cut where its keyword is at its end. -/
lemma ofLine?_settles (cs : List Char) :
    Settles (fun _ => False) (fun _ => True) (Section.ofLine? cs) := by
  have hascii : (Section.keywords.all fun k =>
      k.1.utf8ByteSize == k.1.toList.length && k.1.toList.all (·.utf8Size == 1)) = true := by
    decide
  unfold Section.ofLine?
  split
  · exact True.intro
  next keyword part direction hfind =>
    have hmem := List.mem_of_find?_eq_some hfind
    have hbegins := List.find?_some hfind
    simp only [Section.beginsWith, Bool.and_eq_true, List.isPrefixOf_iff_prefix] at hbegins
    have hkeyword := List.all_eq_true.1 hascii _ hmem
    rw [Bool.and_eq_true, beq_iff_eq, List.all_eq_true] at hkeyword
    obtain ⟨hsize, hone⟩ := hkeyword
    obtain ⟨rest, hrest⟩ :=
      exists_dropBytes? (fun c hc => beq_iff_eq.1 (hone c hc)) hbegins.1
    rw [hsize, hrest]
    exact True.intro

namespace Model

/-! ## Sections -/

/-- What was read so far makes an instance. -/
structure Valid (m : Model) : Prop where
  /-- Columns can become variables. -/
  cols : m.cols.Valid
  /-- The entries of the objective are over columns that are there. -/
  objective : m.cols.Covers m.objective
  /-- The entries of constraints are over columns that are there. -/
  constrs : ∀ c ∈ m.constrs, m.cols.Covers c.entries
  /-- The tokens that are kept can be read. -/
  pending : m.pending.Valid

/-- No tokens are kept after their section. -/
lemma flush_settles (h : m.Valid) (hpos : 1 ≤ pos.line) :
    Settles ReadError.IsRefusal (fun m' => m'.Valid ∧ m'.part = m.part) (m.flush pos) := by
  have hnone : Tokens.Valid [] := List.forall_mem_nil _
  unfold flush
  split
  next hpart =>
    refine Settles.bind (readObjective_settles h.cols h.pending hpos)
      fun ⟨objective, cols⟩ ⟨hcols, hle, hcovers⟩ => ⟨?_, rfl⟩
    exact ⟨hcols, hcovers, fun c hc => (h.constrs c hc).mono hle, hnone⟩
  next hpart =>
    refine Settles.bind (readConstraints_settles h.cols h.pending hpos)
      fun ⟨constrs, cols⟩ ⟨hcols, hle, hcovers⟩ => ⟨?_, rfl⟩
    refine ⟨hcols, h.objective.mono hle, List.forall_mem_append.2 ⟨fun c hc => ?_, hcovers⟩, hnone⟩
    exact (h.constrs c hc).mono hle
  next => exact ⟨{ h with pending := hnone }, rfl⟩

/-- A section begins, or it is refused because it comes too late. -/
lemma enter_settles (h : m.Valid) (hpos : 1 ≤ pos.line) (part : Section)
    (direction : Option Direction) :
    Settles ReadError.IsRefusal (fun m' => m'.Valid ∧ m'.part = part)
      (m.enter pos part direction) := by
  refine Settles.bind (flush_settles h hpos) fun m₁ ⟨hm₁, _⟩ => ?_
  split
  · split
    · exact refuse_settles hpos (by rintro a ⟨⟩)
    · exact ⟨{ hm₁ with }, rfl⟩
  · exact ⟨{ hm₁ with }, rfl⟩

/-! ## Columns -/

/-- The column of a word can be changed if it keeps its name and its place. -/
lemma changeColumn_settles (h : m.Valid) (hpos : 1 ≤ pos.line) {name : List Char}
    (hword : IsWord name) {f : Column → Column} (hf : Keeps f) :
    Settles ReadError.IsRefusal (fun m' => m'.Valid ∧ m'.part = m.part)
      (m.changeColumn pos name f) := by
  obtain ⟨hlt, hcols, hle⟩ := ensure_spec h.cols hword.ofList hpos
  refine Settles.bind (Settles.mapError (update_settles hcols hlt hf) fun _ he => he.elim)
    fun cols ⟨hvalid, hlength⟩ => ⟨?_, rfl⟩
  have hgrows : m.cols.length ≤ cols.length := hlength ▸ hle
  exact ⟨hvalid, h.objective.mono hgrows, fun c hc => (h.constrs c hc).mono hgrows, h.pending⟩

/-- A name marks its column; other tokens are refused. -/
lemma addName_settles (h : m.Valid) (hpos : 1 ≤ pos.line) {t : Token} (ht : t.Named) :
    Settles ReadError.IsRefusal (fun m' => m'.Valid ∧ m'.part = m.part) (m.addName pos t) := by
  unfold addName
  split
  next name =>
    refine changeColumn_settles h hpos ht fun c => ?_
    split <;> exact ⟨rfl, rfl⟩
  next => exact refuse_settles hpos (by rintro a ⟨⟩)

/-! ## Lines -/

/-- Text in a section before the end is taken up, or it is refused for what it says. -/
lemma addTokens_settles (h : m.Valid) (hpart : m.part ≠ .finished) (hpos : 1 ≤ pos.line)
    (cs : List Char) :
    Settles ReadError.IsRefusal (fun m' => m'.Valid ∧ m'.part = m.part) (m.addTokens pos cs) := by
  have hscan := scan_settles cs
  unfold addTokens
  split
  · exact ⟨h, rfl⟩
  · split
    next text htext => exact refuse_settles hpos (by rintro a ⟨⟩)
    next ts hts =>
      have hnamed := hscan.of_ok hts
      have hkept : Model.Valid { m with pending := m.pending ++ ts.map fun t => (t, pos) } := by
        refine { h with pending := List.forall_mem_append.2 ⟨h.pending, fun t ht => ?_⟩ }
        obtain ⟨t', ht', rfl⟩ := List.mem_map.1 ht
        exact ⟨hnamed t' ht', hpos⟩
      split
      · exact refuse_settles hpos (by rintro a ⟨⟩)
      next hfinished => exact absurd hfinished hpart
      · exact ⟨hkept, rfl⟩
      · exact ⟨hkept, rfl⟩
      · refine Settles.bind (readBound_settles hpos hnamed) fun ⟨x, action⟩ ⟨hx, haction⟩ => ?_
        exact changeColumn_settles h hpos hx haction
      all_goals
        refine Settles.foldlM (Q := fun m' : Model => m'.Valid ∧ m'.part = m.part) ⟨h, rfl⟩
          fun t ht m' ⟨hm', hsame⟩ => ?_
        refine (addName_settles hm' hpos (hnamed t ht)).mono fun m'' ⟨hm'', hsame'⟩ => ?_
        exact ⟨hm'', hsame'.trans hsame⟩

/-- A line before the end keeps the model valid, or it is refused for what it says. -/
lemma addText_settles (h : m.Valid) (hpart : m.part ≠ .finished) (hpos : 1 ≤ pos.line)
    (text : String) : Settles ReadError.IsRefusal Valid (m.addText pos text) := by
  have hline := ofLine?_settles (trim (text.toList.takeWhile (· != '\\')))
  refine Settles.bind (hline.mapError fun _ he => he.elim) fun r _ => ?_
  cases r with
  | none =>
    exact (addTokens_settles h hpart hpos _).mono fun m' hm' => hm'.1
  | some r =>
    obtain ⟨part, direction, rest⟩ := r
    refine Settles.bind (enter_settles h hpos part direction) fun m₁ ⟨hm₁, hpart₁⟩ => ?_
    split
    · exact hm₁
    next hopen =>
      exact (addTokens_settles hm₁ (hpart₁ ▸ hopen) hpos _).mono fun m' hm' => hm'.1

end Model

/-! ## Streams -/

/-- What the reader does with a line. -/
def step (m : Model) (pos : Position) (text : String) :
    Except ReadError (InputStream.LineStep Model) :=
  (m.addText pos text).map fun m =>
    if m.part = .finished then InputStream.LineStep.done m else .more m

/-- What the reader makes of the model after the last line. -/
def finish (settings : Table.Settings) (m : Model) (last : Position) : Except ReadError Instance :=
  if m.part = .finished then build settings none m.cols m.constrs m.direction m.objective
  else refuse last .noEnd

/-- The instance is that of the model after the last line. -/
lemma decode_eq (settings : Table.Settings) (input : InputStream) :
    decode settings input =
      input.readThrough step {} fun _ r _ => finish settings r.1 r.2 := by
  unfold decode InputStream.readThrough
  delta step
  dsimp only
  generalize InputStream.foldLines _ ({} : Model) input.position input = r
  obtain ⟨outcome, input'⟩ := r
  cases outcome with
  | error e => rfl
  | ok r =>
    dsimp only
    rw [finish]
    split <;> rfl

lemma uniform_decode (settings : Table.Settings) : InputStream.Uniform (decode settings) := by
  rw [funext (decode_eq settings)]
  exact InputStream.uniform_readThrough _ _ _

/-- A stream is read as a sound instance, or it is refused for what stands on one of its lines. -/
lemma reading_decode (settings : Table.Settings) (input : InputStream) :
    InputStream.Reading Instance.Sound input (decode settings input) := by
  have hempty : Model.Valid {} :=
    ⟨List.forall_mem_nil _, List.forall_mem_nil _, List.forall_mem_nil _, List.forall_mem_nil _⟩
  have hstep : ∀ (m : Model) (pos : Position) (text : String),
      m.Valid ∧ m.part ≠ .finished → 1 ≤ pos.line → InputStream.IsLine text.toList →
      Settles ReadError.IsRefusal
        (InputStream.LineStep.LeadsTo (fun m => m.Valid ∧ m.part ≠ .finished) Model.Valid)
        (step m pos text) := by
    intro m pos text hm hpos hline
    refine Settles.map (Model.addText_settles hm.1 hm.2 hpos text) fun m' hm' => ?_
    split
    · exact hm'
    next hopen => exact ⟨hm', hopen⟩
  rw [decode_eq]
  refine InputStream.reading_readThrough hstep (fun base r ending _ _ hr hlast => ?_)
    ⟨hempty, nofun⟩ input
  have hm : r.1.Valid := hr.elim And.left id
  unfold finish
  split
  · exact build_settles settings (by simp) hm.cols hm.constrs r.1.direction hm.objective
  · exact refuse_settles hlast (by rintro a ⟨⟩)

end LinearInterchange.Lp
