import LinearInterchange.Proofs.SoundInstances
import LinearInterchange.Proofs.StreamLoops

/-!
# Reading from streams

Whatever is read from a stream is read by lines or skipped as white space, and then it is only a
matter of the texts of the lines and of the positions before and after them (`readThrough`).  Three
things follow for all readers.

What a step of reading does is settled by the bytes ahead and by the two counts of the stream, so
streams that agree in these are read alike (`Uniform`), whatever lies in their buffers.

A step that succeeds moves the offset past exactly the bytes that it takes (`Advances`), and so does
one that refuses what it has read.  Only a line that is no text is taken and not counted (`Slips`),
and then the step fails as the system does (`Tracks`).

What the steps over lines preserve holds of the value in the end (`Reading`).
-/

namespace LinearInterchange

/-! ## Sources -/

namespace ByteSource

variable {b b' b'' : ByteSource}

/-- Two sources are over the same bytes, and both or none of them can be set back. -/
structure SameBytes (b b' : ByteSource) : Prop where
  content : b'.content = b.content
  seekable : b'.seekable = b.seekable

lemma SameBytes.trans (h : SameBytes b b') (h' : SameBytes b' b'') : SameBytes b b'' :=
  ⟨h'.content.trans h.content, h'.seekable.trans h.seekable⟩

lemma sameBytes_fill (b : ByteSource) : SameBytes b b.fill := by
  unfold fill
  split <;> exact ⟨rfl, rfl⟩

/-- Taking a line does not change which bytes there are. -/
lemma sameBytes_takeLine (b : ByteSource) : SameBytes b b.takeLine.2 := by
  fun_induction takeLine b with
  | case1 b b' h => exact b.sameBytes_fill
  | case2 b b' h line _ => exact ⟨b.sameBytes_fill.content, b.sameBytes_fill.seekable⟩
  | case3 b b' h line hnone more b'' heq ih =>
    rw [heq] at ih
    exact b.sameBytes_fill.trans ⟨ih.content, ih.seekable⟩

/-- Skipping white space does not change which bytes there are. -/
lemma sameBytes_skipRun (b : ByteSource) : SameBytes b b.skipRun.2.2.2 := by
  fun_induction skipRun b with
  | case1 b b' h => exact b.sameBytes_fill
  | case2 b b' h piece feeds hlt => exact ⟨b.sameBytes_fill.content, b.sameBytes_fill.seekable⟩
  | case3 b b' h piece feeds hlt n k ended b'' heq ih =>
    rw [heq] at ih
    exact b.sameBytes_fill.trans ⟨ih.content, ih.seekable⟩

end ByteSource

namespace InputStream

/-! ## Streams that agree -/

/-- Two streams have the same bytes ahead of them, and have counted the same bytes and lines. -/
structure Agrees (s t : InputStream) : Prop where
  rest : s.source.rest = t.source.rest
  offset : s.offset = t.offset
  line : s.line = t.line

variable {s s' t : InputStream}

lemma Agrees.position_eq (h : s.Agrees t) : s.position = t.position := by
  rw [position, position, h.offset, h.line]

lemma Agrees.cursor_eq (h : s.Agrees t) (atEnd : Bool) : s.cursor atEnd = t.cursor atEnd := by
  rw [cursor, cursor, h.offset, h.line]

/-- On streams that agree, a step of reading has the same outcome and leaves streams that agree. -/
def Uniform {α : Type} (f : InputStream → α × InputStream) : Prop :=
  ∀ ⦃s t⦄, s.Agrees t → (f s).1 = (f t).1 ∧ (f s).2.Agrees (f t).2

/-- What a uniform step does on a stream, it does on one that agrees. -/
lemma Uniform.exists_eq {α : Type} {f : InputStream → α × InputStream} {a : α} (hf : Uniform f)
    (h : s.Agrees t) (heq : f s = (a, s')) : ∃ t', f t = (a, t') ∧ s'.Agrees t' := by
  obtain ⟨houtcome, hagrees⟩ := hf h
  rw [heq] at houtcome hagrees
  exact ⟨(f t).2, Prod.ext houtcome.symm rfl, hagrees⟩

/-- The same line comes off streams that agree. -/
lemma Agrees.takeLine (h : s.Agrees t) :
    s.source.takeLine.1 = t.source.takeLine.1 ∧
      s.source.takeLine.2.rest = t.source.takeLine.2.rest := by
  have hline : s.source.takeLine.1 = t.source.takeLine.1 := by
    rw [ByteSource.takeLine_eq_cutLine, ByteSource.takeLine_eq_cutLine, h.rest]
  refine ⟨hline, ?_⟩
  have hs := ByteSource.takeLine_append_rest s.source
  have ht := ByteSource.takeLine_append_rest t.source
  rw [hline, h.rest, ← ht] at hs
  exact List.append_cancel_left hs

/-- Lines are read alike. -/
lemma uniform_readLine : Uniform readLine := by
  intro s t h
  obtain ⟨hline, hrest⟩ := h.takeLine
  simp only [readLine, hline]
  split
  · exact ⟨rfl, hrest, h.offset, h.line⟩
  · split
    · exact ⟨rfl, hrest, h.offset, h.line⟩
    · exact ⟨rfl, hrest, congrArg (· + _) h.offset, congrArg (· + 1) h.line⟩

/-- White space is skipped alike. -/
lemma uniform_skipWhitespace : Uniform skipWhitespace := by
  intro s t h
  have hs := s.source.skipRun_spec
  have ht := t.source.skipRun_spec
  rw [← h.rest] at ht
  refine ⟨hs.2.2.1.trans ht.2.2.1.symm, hs.2.2.2.trans ht.2.2.2.symm, ?_, ?_⟩
  · exact congrArg₂ (· + ·) h.offset (hs.1.trans ht.1.symm)
  · exact congrArg₂ (· + ·) h.line (hs.2.1.trans ht.2.1.symm)

/-- A loop over lines runs alike. -/
lemma uniform_foldLines {σ : Type}
    (step : σ → Position → String → Except ReadError (LineStep σ)) (state : σ) (last : Position) :
    Uniform (foldLines step state last) := by
  intro s t h
  -- both streams give the same line in every round, so the loops take the same branch
  fun_induction foldLines step state last s generalizing t with
  | case1 state last s e s' hread =>
    obtain ⟨t', hread', hagrees⟩ := uniform_readLine.exists_eq h hread
    rw [foldLines, hread']
    exact ⟨rfl, hagrees⟩
  | case2 state last s s' hread =>
    obtain ⟨t', hread', hagrees⟩ := uniform_readLine.exists_eq h hread
    rw [foldLines, hread']
    exact ⟨rfl, hagrees⟩
  | case3 state last s text s' hread hne e he =>
    obtain ⟨t', hread', hagrees⟩ := uniform_readLine.exists_eq h hread
    rw [foldLines, hread']
    simp only [dif_neg hne, ← h.position_eq, he]
    exact ⟨True.intro, hagrees⟩
  | case4 state last s text s' hread hne state₁ hdone =>
    obtain ⟨t', hread', hagrees⟩ := uniform_readLine.exists_eq h hread
    rw [foldLines, hread']
    simp only [dif_neg hne, ← h.position_eq, hdone]
    exact ⟨True.intro, hagrees⟩
  | case5 state last s text s' hread hne state₁ hmore ih =>
    obtain ⟨t', hread', hagrees⟩ := uniform_readLine.exists_eq h hread
    rw [foldLines.eq_def step state last t, hread']
    simp only [dif_neg hne, ← h.position_eq, hmore]
    exact ih hagrees

/-! ## Offsets and bytes -/

/-- A stream has gone on to another one: bytes were taken, and the offset has moved past them. -/
structure Advances (s s' : InputStream) : Prop where
  same : s.source.SameBytes s'.source
  taken : ∃ bytes, s.source.rest = bytes ++ s'.source.rest ∧ s'.offset = s.offset + bytes.length

/-- A stream has gone on to another one, and the last bytes that were taken are not counted. -/
structure Slips (s s' : InputStream) : Prop where
  same : s.source.SameBytes s'.source
  taken : ∃ bytes line, line ≠ [] ∧ s.source.rest = bytes ++ line ++ s'.source.rest ∧
    s'.offset = s.offset + bytes.length

lemma Advances.refl (s : InputStream) : Advances s s :=
  ⟨⟨rfl, rfl⟩, [], rfl, rfl⟩

/-- One way leads on from another. -/
lemma Advances.trans {s₁ s₂ s₃ : InputStream} (h : Advances s₁ s₂) (h' : Advances s₂ s₃) :
    Advances s₁ s₃ := by
  obtain ⟨bytes, hrest, hoffset⟩ := h.taken
  obtain ⟨more, hrest', hoffset'⟩ := h'.taken
  refine ⟨h.same.trans h'.same, bytes ++ more, ?_, ?_⟩
  · rw [hrest, hrest', List.append_assoc]
  · rw [hoffset', hoffset, List.length_append, Nat.add_assoc]

/-- Bytes that are not counted may come after bytes that are. -/
lemma Advances.trans_slips {s₁ s₂ s₃ : InputStream} (h : Advances s₁ s₂) (h' : Slips s₂ s₃) :
    Slips s₁ s₃ := by
  obtain ⟨bytes, hrest, hoffset⟩ := h.taken
  obtain ⟨more, line, hline, hrest', hoffset'⟩ := h'.taken
  refine ⟨h.same.trans h'.same, bytes ++ more, line, hline, ?_, ?_⟩
  · rw [hrest, hrest', List.append_assoc, List.append_assoc, List.append_assoc]
  · rw [hoffset', hoffset, List.length_append, Nat.add_assoc]

/-- Reading a line moves the offset past it. -/
lemma advances_readLine {text : String} (h : s.readLine = (.ok text, s')) : Advances s s' := by
  obtain ⟨hbytes, hoffset⟩ := readLine_ok h
  have hsource : s'.source = s.source.takeLine.2 := by rw [← source_readLine, h]
  refine ⟨hsource ▸ s.source.sameBytes_takeLine, bytesOf text, ?_, hoffset⟩
  rw [← hbytes, hsource, ByteSource.takeLine_append_rest]

/-- A line that is no text is taken and not counted. -/
lemma slips_readLine {e : SystemFault} (h : s.readLine = (.error e, s')) : Slips s s' := by
  unfold readLine at h
  simp only at h
  split at h
  next hnone =>
    obtain rfl := (Prod.mk.inj h).2
    refine ⟨s.source.sameBytes_takeLine, [], s.source.takeLine.1, ?_, ?_, rfl⟩
    · intro hnil
      rw [hnil] at hnone
      exact absurd hnone (by decide)
    · exact s.source.takeLine_append_rest.symm
  · split at h <;> cases (Prod.mk.inj h).1

/-- Skipping white space moves the offset past it. -/
lemma advances_skipWhitespace (s : InputStream) : Advances s s.skipWhitespace.2 := by
  obtain ⟨hcount, -, -, hrest⟩ := s.source.skipRun_spec
  refine ⟨s.source.sameBytes_skipRun, s.source.rest.takeWhile ByteSource.isSkipped, ?_, ?_⟩
  · show s.source.rest = _ ++ s.source.skipRun.2.2.2.rest
    rw [hrest, List.takeWhile_append_dropWhile]
  · exact congrArg (s.offset + ·) hcount

/-- The system has failed. -/
def Failed {α : Type} (outcome : Except ReadError α) : Prop :=
  ∃ fault, outcome = .error (.system fault)

/-- The offset keeps up with the bytes that are taken, unless the system fails. -/
structure Tracks {α : Type} (s : InputStream) (r : Except ReadError α × InputStream) : Prop where
  advances : ¬Failed r.1 → Advances s r.2
  slips : Failed r.1 → Slips s r.2

section Tracks

variable {α β : Type} {x : Except ReadError α}

lemma not_failed_ok {a : α} : ¬Failed (.ok a) := by
  rintro ⟨fault, ⟨⟩⟩

lemma not_failed_of_settles {P : α → Prop} (h : Settles ReadError.IsRefusal P x) : ¬Failed x := by
  rintro ⟨fault, rfl⟩
  exact h

/-- What is reported at a position is no failure of the system. -/
lemma not_failed_report {ε : Type} (pos : Position) (refusal : ε → Refusal) (y : Except ε α) :
    ¬Failed (pos.report refusal y) := by
  rintro ⟨fault, h⟩
  obtain ⟨e, -, ⟨⟩⟩ := mapError_eq_error.1 h

lemma failed_map_iff {f : α → β} : Failed (x.map f) ↔ Failed x :=
  exists_congr fun _ => map_eq_error

/-- The offset has kept up with the bytes, and the system has not failed. -/
lemma Tracks.of_advances (h : Advances s s') (hx : ¬Failed x) : Tracks s (x, s') :=
  ⟨fun _ => h, fun hfailed => absurd hfailed hx⟩

/-- The offset keeps up with bytes that are taken before others with which it does. -/
lemma Advances.tracks {r : Except ReadError α × InputStream} (h : Advances s s')
    (hr : Tracks s' r) : Tracks s r :=
  ⟨fun hfailed => h.trans (hr.advances hfailed), fun hfailed => h.trans_slips (hr.slips hfailed)⟩

/-- It does not matter to the offset what is made of a value. -/
lemma Tracks.map {f : α → β} (h : Tracks s (x, s')) : Tracks s (x.map f, s') :=
  ⟨fun hn => h.advances (failed_map_iff.not.1 hn), fun hf => h.slips (failed_map_iff.1 hf)⟩

/-- Where nothing is read, it does not matter to the offset what would have been. -/
lemma Tracks.of_error {e : ReadError} (h : Tracks s ((.error e : Except ReadError α), s')) :
    Tracks s ((.error e : Except ReadError β), s') := by
  have hiff : Failed (.error e : Except ReadError β) ↔ Failed (.error e : Except ReadError α) := by
    simp [Failed]
  exact ⟨fun hn => h.advances (hiff.not.1 hn), fun hf => h.slips (hiff.1 hf)⟩

end Tracks

/-! ## Lines -/

/-- Reads lines as `foldLines` does.  What was read is made a value, given the positions before the
first line, of the last line and behind it. -/
def readThrough {σ α : Type} (step : σ → Position → String → Except ReadError (LineStep σ))
    (state : σ) (finish : Position → σ × Position → Position → Except ReadError α)
    (s : InputStream) : Except ReadError α × InputStream :=
  match foldLines step state s.position s with
  | (.error e, s') => (.error e, s')
  | (.ok r, s') => (finish s.position r s'.position, s')

/-- Whatever is made of lines, it is read alike. -/
lemma uniform_readThrough {σ α : Type}
    (step : σ → Position → String → Except ReadError (LineStep σ)) (state : σ)
    (finish : Position → σ × Position → Position → Except ReadError α) :
    Uniform (readThrough step state finish) := by
  intro s t h
  unfold readThrough
  rw [h.position_eq]
  split
  next e s' heq =>
    obtain ⟨t', heq', hagrees⟩ := (uniform_foldLines _ _ _).exists_eq h heq
    rw [heq']
    exact ⟨rfl, hagrees⟩
  next r s' heq =>
    obtain ⟨t', heq', hagrees⟩ := (uniform_foldLines _ _ _).exists_eq h heq
    rw [heq']
    exact ⟨by rw [hagrees.position_eq], hagrees⟩

/-- A value with `P` is read, or an error is founded, and the offset keeps up with the bytes unless
the system fails. -/
structure Reading {α : Type} (P : α → Prop) (s : InputStream)
    (r : Except ReadError α × InputStream) : Prop where
  settles : Settles ReadError.IsFounded P r.1
  tracks : Tracks s r

section Reading

variable {α β : Type} {P : α → Prop} {R : β → Prop} {x : Except ReadError α}

/-- What refuses a line or gives a value, when the offset has kept up with the bytes, is a reading. -/
lemma Reading.of_settles (h : Settles ReadError.IsRefusal P x) (hs : Advances s s') :
    Reading P s (x, s') :=
  ⟨h.imp (fun _ he => he.isFounded) fun _ ha => ha, .of_advances hs (not_failed_of_settles h)⟩

/-- When the system fails, bytes were taken that are not counted. -/
lemma Reading.of_system {fault : SystemFault} (hs : Slips s s') :
    Reading P s (.error (.system fault), s') :=
  ⟨True.intro, fun h => absurd ⟨fault, rfl⟩ h, fun _ => hs⟩

/-- A reading may come after bytes that are taken and counted. -/
lemma Advances.reading {r : Except ReadError α × InputStream} (h : Advances s s')
    (hr : Reading P s' r) : Reading P s r :=
  ⟨hr.settles, h.tracks hr.tracks⟩

/-- Where nothing is read, it does not matter what would have been. -/
lemma Reading.of_error {e : ReadError} (h : Reading P s (.error e, s')) :
    Reading R s (.error e, s') :=
  ⟨h.settles, h.tracks.of_error⟩

end Reading

section Steps

variable {σ α : Type} {P Q : σ → Prop} {R : α → Prop}
  {step : σ → Position → String → Except ReadError (LineStep σ)}
  {finish : Position → σ × Position → Position → Except ReadError α} {state : σ}

variable (hstep : ∀ state pos text, P state → 1 ≤ pos.line → IsLine text.toList →
  Settles ReadError.IsRefusal (LineStep.LeadsTo P Q) (step state pos text))

include hstep

/-- What the steps of a loop preserve holds at its end, whether the loop stops, fails or comes to
the end of the stream. -/
lemma reading_foldLines (hstate : P state) {last : Position} (hlast : 1 ≤ last.line)
    (s : InputStream) :
    Reading (fun r => (P r.1 ∨ Q r.1) ∧ 1 ≤ r.2.line) s (foldLines step state last s) := by
  fun_induction foldLines step state last s with
  | case1 state last s e s' hread => exact .of_system (slips_readLine hread)
  | case2 state last s s' hread =>
    exact .of_settles (x := .ok (state, last)) ⟨.inl hstate, hlast⟩ (advances_readLine hread)
  | case3 state last s text s' hread hne e he =>
    have hrefusal := (hstep state s.position text hstate s.line_pos
      (isLine_of_readLine hread)).of_error he
    exact .of_settles (x := .error e) hrefusal (advances_readLine hread)
  | case4 state last s text s' hread hne state₁ hdone =>
    have hleads := (hstep state s.position text hstate s.line_pos
      (isLine_of_readLine hread)).of_ok hdone
    exact .of_settles (x := .ok (state₁, s.position)) ⟨.inr hleads, s.line_pos⟩
      (advances_readLine hread)
  | case5 state last s text s' hread hne state₁ hmore ih =>
    have hleads := (hstep state s.position text hstate s.line_pos
      (isLine_of_readLine hread)).of_ok hmore
    have hrest := ih hleads s.line_pos
    exact ⟨hrest.settles, (advances_readLine hread).tracks hrest.tracks⟩

/-- What is made of lines whose steps preserve a property is made of a state with this property. -/
lemma reading_readThrough
    (hfinish : ∀ base r ending, 1 ≤ base.line → 1 ≤ ending.line → P r.1 ∨ Q r.1 → 1 ≤ r.2.line →
      Settles ReadError.IsRefusal R (finish base r ending))
    (hstate : P state) (s : InputStream) : Reading R s (readThrough step state finish s) := by
  have hfold := reading_foldLines hstep hstate s.line_pos s
  unfold readThrough
  split
  next e s' heq =>
    rw [heq] at hfold
    exact hfold.of_error
  next r s' heq =>
    rw [heq] at hfold
    have hvalue := hfinish s.position r s'.position s.line_pos s'.line_pos hfold.settles.1
      hfold.settles.2
    exact .of_settles hvalue (hfold.tracks.advances not_failed_ok)

end Steps

end InputStream

end LinearInterchange
