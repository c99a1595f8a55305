import LinearInterchange.Format.Exchange.Reader
import LinearInterchange.Proofs.StreamReading

/-!
# What the exchange reader accepts

Every line that is read changes the instance by one of its operations, so all that is left to see is
that names are what they have to be.  The name of a variable was accepted as a run of characters
without white space.  The name of the instance is what is left of its line when the white space at
both ends is gone, and that is something because a line is only read up to its last character that
is no white space.
-/

namespace LinearInterchange.Exchange

open Text Text.Parser

variable {cs rest : List Char} {line : Line} {s : State}

/-! ## Lines -/

namespace Line

/-- The line is one that can be read from the text: the name of the instance is the trimmed rest of
the text, and the name of a variable is a word. -/
def Fits (cs : List Char) : Line → Prop
  | .name n => ∃ blanks text, blanks ≠ [] ∧ (∀ c ∈ blanks, isBlank c = true) ∧
      cs = 'n' :: blanks ++ text ∧ n = trim text
  | .var _ word _ _ => IsWord word
  | _ => True

/-- Blanks within a line are white space. -/
lemma isBlank_of_isSpace {c : Char} (h : isSpace c = true) : isBlank c = true := by
  by_contra hblank
  rw [isSpace_of_not_isBlank (by simpa using hblank)] at h
  cases h

/-- A character that is accepted is the first one of the text. -/
lemma eq_cons_of_char {c : Char} {u : Unit} (h : char c cs = some (u, rest)) : cs = c :: rest := by
  cases cs with
  | nil =>
    rw [char_of_stops (stops_nil _)] at h
    cases h
  | cons d cs =>
    by_cases hd : d = c
    · rw [hd, char_cons] at h
      obtain ⟨-, rfl⟩ := Prod.mk.inj (Option.some.inj h)
      rw [hd]
    · rw [char_of_stops (stops_cons (by simpa using hd))] at h
      cases h

/-- The blanks that are accepted are some of the text. -/
lemma exists_blanks_of_spaces1 {u : Unit} (h : spaces1 cs = some (u, rest)) :
    ∃ blanks, blanks ≠ [] ∧ (∀ c ∈ blanks, isBlank c = true) ∧ cs = blanks ++ rest := by
  obtain ⟨blanks, hrun, -⟩ := map_eq_some h
  obtain ⟨hne, hall⟩ := Ensures.run1 isSpace cs blanks rest hrun
  unfold run1 at hrun
  split at hrun
  · cases hrun
  · cases hrun
    exact ⟨_, hne, fun c hc => isBlank_of_isSpace (hall c hc),
      List.takeWhile_append_dropWhile.symm⟩

/-- The line with the name of the instance has the name behind a letter and blanks. -/
lemma fits_of_nameLine (h : nameLine cs = some (line, rest)) : line.Fits cs := by
  obtain ⟨u, cs₁, hchar, h⟩ := bind_eq_some h
  obtain ⟨text, cs₂, htext, h⟩ := bind_eq_some h
  obtain ⟨u', cs₃, hspaces, hrun⟩ := bind_eq_some htext
  cases h
  obtain ⟨blanks, hne, hblanks, hcs₁⟩ := exists_blanks_of_spaces1 hspaces
  obtain ⟨rfl, -⟩ := Prod.mk.inj (Option.some.inj ((run_all cs₃).symm.trans hrun))
  refine ⟨blanks, cs₃, hne, hblanks, ?_, rfl⟩
  rw [eq_cons_of_char hchar, hcs₁]
  rfl

/-- A line of another kind fits any text. -/
lemma ensures_fits :
    Ensures (fun line : Line => ∀ cs, line.Fits cs)
        (varLine <|> objectiveLine <|> constrLine) ∧
      Ensures (fun line : Line => ∀ cs, line.Fits cs) commentLine := by
  have hvar : Ensures (fun line : Line => ∀ cs, line.Fits cs) varLine := by
    refine .after fun _ => .after fun _ => .bind (.after fun _ => .run1 _) fun name hname => ?_
    refine .after fun _ => .after fun _ => .pure fun _ => ⟨hname.1, fun c hc => ?_⟩
    simpa using hname.2 c hc
  have hobjective : Ensures (fun line : Line => ∀ cs, line.Fits cs) objectiveLine :=
    .after fun _ => .after fun _ => .after fun _ => .pure fun _ => True.intro
  have hconstr : Ensures (fun line : Line => ∀ cs, line.Fits cs) constrLine :=
    .after fun _ => .after fun _ => .after fun _ => .after fun _ => .pure fun _ => True.intro
  exact ⟨hvar.orElse (hobjective.orElse hconstr),
    .after fun _ => .after fun _ => .pure fun _ => True.intro⟩

/-- A line that is read fits the text. -/
lemma fits_of_read? (h : read? cs = some line) : line.Fits cs := by
  have hparse := eq_some_of_parseWhole? h
  obtain ⟨line', rest, hline, hparse⟩ := bind_eq_some hparse
  obtain ⟨u, rest', -, hparse⟩ := bind_eq_some hparse
  cases hparse
  rcases orElse_eq_some hline with hcomment | hline
  · exact ensures_fits.2 cs line rest hcomment cs
  · rcases orElse_eq_some hline with hname | hother
    · exact fits_of_nameLine hname
    · exact ensures_fits.1 cs line rest hother cs

/-- The name on a line that does not end in white space can stand behind a keyword. -/
lemma Fits.isTitle {n : List Char} (h : Fits cs (.name n)) (hne : cs ≠ [])
    (hlast : isBlank (cs.getLast hne) = false) (hfeed : '\n' ∉ cs) : IsTitle n := by
  obtain ⟨blanks, text, hblanks, hall, rfl, rfl⟩ := h
  have htext : text ≠ [] := by
    rintro rfl
    -- the line would end in a blank
    simp only [List.append_nil, List.getLast_cons hblanks] at hlast
    rw [hall _ (List.getLast_mem hblanks)] at hlast
    cases hlast
  rw [List.getLast_append_of_ne_nil _ htext] at hlast
  refine ⟨trim_ne_nil (List.getLast_mem htext) hlast, trim_trim text, fun hmem => hfeed ?_⟩
  exact List.mem_append_right _ (mem_of_mem_trim hmem)

end Line

/-! ## Building the instance -/

/-- All faults of the reader are found in the text. -/
lemma isOrdinary_refusal (f : Fault) : f.refusal.IsOrdinary := by
  cases f with
  | badNumber token fault => exact isOrdinary_number token fault
  | _ => rintro a ⟨⟩

/-- The domain of a variable holds a value, or its bounds are refused. -/
lemma readDomain_settles (bounds : Option (Int64 × Int64)) :
    Settles (fun _ => True) Domain.Nonempty (readDomain bounds) := by
  unfold readDomain
  split
  · exact Domain.nonempty_bool
  next lb ub => exact (Domain.ofBounds_settles lb ub).mapError fun _ _ => True.intro

namespace State

/-- A line keeps the instance sound, or it is refused. -/
lemma add_settles (h : s.inst.Sound) (hline : line.Fits cs) (hne : cs ≠ [])
    (hlast : isBlank (cs.getLast hne) = false) (hfeed : '\n' ∉ cs) :
    Settles (fun _ => True) (fun s' => s'.inst.Sound) (s.add line) := by
  cases line with
  | comment => exact h
  | name n =>
    exact h.setName (hline.isTitle hne hlast hfeed).ofList
  | var id name bounds aux =>
    have hword : IsWord name := hline
    refine Settles.after fun v => ?_
    refine Settles.bind (readDomain_settles bounds) fun domain hdomain => ?_
    refine Settles.bind ((h.restore ?_ ?_).mapError fun _ _ => True.intro) fun _ hinst => hinst
    · exact hword.ofList
    · exact hdomain
  | objective d ts =>
    rw [State.add]
    split
    · exact True.intro
    · refine Settles.after fun terms => ?_
      exact Settles.bind ((h.setObjective _).mapError fun _ _ => True.intro) fun _ hinst => hinst
  | constr rel rhs ts =>
    refine Settles.after fun rhs => ?_
    refine Settles.after fun terms => ?_
    exact Settles.bind ((h.addConstr _).mapError fun _ _ => True.intro) fun _ hinst => hinst

/-- A line of a stream keeps the instance sound, or it is refused for what stands on it. -/
lemma addText_settles (h : s.inst.Sound) {text : String}
    (hline : InputStream.IsLine text.toList) :
    Settles (fun f => f.refusal.IsOrdinary) (fun s' => s'.inst.Sound) (s.addText text) := by
  refine Settles.imp (E := fun _ => True) ?_ (fun f _ => isOrdinary_refusal f) fun _ h => h
  simp only [addText]
  split
  · exact h
  next hsome =>
    have hne : trimRight text.toList ≠ [] := by simpa using hsome
    split
    next line hread =>
      exact add_settles h (Line.fits_of_read? hread) hne (isBlank_getLast_trimRight hne)
        hline.not_mem_trimRight
    next => exact True.intro

end State

/-! ## Streams -/

/-- What the reader does with a line. -/
def step (s : State) (pos : Position) (text : String) :
    Except ReadError (InputStream.LineStep State) :=
  (pos.report Fault.refusal (s.addText text)).map InputStream.LineStep.more

/-- The instance is that of the state after the last line. -/
lemma decode_eq (input : InputStream) :
    decode input = input.readThrough step {} fun _ r _ => .ok r.1.inst := by
  unfold decode InputStream.readThrough
  delta step
  dsimp only
  generalize InputStream.foldLines _ ({} : State) input.position input = r
  obtain ⟨outcome, input'⟩ := r
  cases outcome <;> rfl

lemma uniform_decode : InputStream.Uniform decode := by
  rw [funext decode_eq]
  exact InputStream.uniform_readThrough _ _ _

/-- A stream is read as a sound instance, or it is refused for what stands on one of its lines. -/
lemma reading_decode (input : InputStream) :
    InputStream.Reading Instance.Sound input (decode input) := by
  have hstep : ∀ (s : State) (pos : Position) (text : String), s.inst.Sound → 1 ≤ pos.line →
      InputStream.IsLine text.toList → Settles ReadError.IsRefusal
        (InputStream.LineStep.LeadsTo (fun s => s.inst.Sound) fun s => s.inst.Sound)
        (step s pos text) :=
    fun s pos text hs hpos hline =>
      Settles.map ((State.addText_settles hs hline).report hpos) fun _ hs' => hs'
  have hempty : Instance.Sound (State.inst {}) := Instance.sound_empty (by simp)
  rw [decode_eq]
  refine InputStream.reading_readThrough hstep (fun base r ending _ _ hr _ => ?_) hempty input
  exact or_self_iff.1 hr

end LinearInterchange.Exchange
