import LinearInterchange.Proofs.TextStreams

/-!
# Positions in texts

A position is right (`Position.IsRight`) if its line is the one in which its offset lies.  The lines
of a text are counted by their line feeds.  The end of a text is the beginning of a line that there
is not, and so it has the number of the line that would be read next, whether or not a line feed
ends the last one.

A stream stands in a text (`InputStream.Standing`) if its position is right and the rest of the text
lies ahead of it.  Reading lines and skipping white space leave it so, except at the end of the
text: white space that is skipped up to there may belong to a last line without a line feed, which
is not counted then.
-/

namespace LinearInterchange

open Text ByteSource

/-! ## Right positions -/

/-- The number of the line in which an offset of the content lies: one more than the number of the
line feeds before it, and another one more where the content is at its end without a line feed. -/
def lineAt (content : List UInt8) (offset : ℕ) : ℕ :=
  1 + (content.take offset).count lineFeed +
    if offset = content.length ∧ content ≠ [] ∧ content.getLast? ≠ some lineFeed then 1 else 0

/-- The position is one of the content, and its line is the one in which its offset lies. -/
structure Position.IsRight (content : List UInt8) (p : Position) : Prop where
  offset_le : p.offset ≤ content.length
  line_eq : p.line = lineAt content p.offset

instance (content : List UInt8) (p : Position) : Decidable (p.IsRight content) :=
  decidable_of_iff (p.offset ≤ content.length ∧ p.line = lineAt content p.offset)
    ⟨fun h => ⟨h.1, h.2⟩, fun h => ⟨h.1, h.2⟩⟩

section Lines

variable {before bytes more : List UInt8}

/-- Before the end of the content, the lines are counted by their line feeds. -/
lemma lineAt_append (h : more ≠ []) :
    lineAt (before ++ more) before.length = 1 + before.count lineFeed := by
  have hlength : before.length ≠ (before ++ more).length := by
    rw [List.length_append]
    have := List.length_pos_iff.2 h
    omega
  rw [lineAt, List.take_left, if_neg fun hend => hlength hend.1, Nat.add_zero]

/-- At the end of the content, a line that no line feed ends is counted as well. -/
lemma lineAt_length (content : List UInt8) :
    lineAt content content.length = 1 + content.count lineFeed +
      if content ≠ [] ∧ content.getLast? ≠ some lineFeed then 1 else 0 := by
  rw [lineAt, List.take_length]
  simp only [true_and]

/-- Behind a line feed the next line begins, also at the end of the content. -/
lemma lineAt_append_lineFeed (before bytes more : List UInt8) (hbytes : lineFeed ∉ bytes) :
    lineAt (before ++ bytes ++ lineFeed :: more) (before.length + bytes.length + 1) =
      1 + before.count lineFeed + 1 := by
  have hcount : (before ++ bytes ++ [lineFeed]).count lineFeed = before.count lineFeed + 1 := by
    rw [List.count_append, List.count_append, List.count_eq_zero.2 hbytes]
    rfl
  have hsplit : before ++ bytes ++ lineFeed :: more = before ++ bytes ++ [lineFeed] ++ more := by
    rw [List.append_assoc _ [lineFeed], List.singleton_append]
  have hlength : before.length + bytes.length + 1 = (before ++ bytes ++ [lineFeed]).length := by
    rw [List.length_append, List.length_append, List.length_singleton]
  rw [hsplit, hlength]
  by_cases hmore : more = []
  · subst hmore
    rw [List.append_nil, lineAt_length, hcount, if_neg (by simp)]
    rfl
  · rw [lineAt_append hmore, hcount]
    rfl

/-- Behind a last line without a line feed, the line after it would begin. -/
lemma lineAt_append_last (before : List UInt8) {bytes : List UInt8} (hne : bytes ≠ [])
    (hbytes : lineFeed ∉ bytes) :
    lineAt (before ++ bytes) (before.length + bytes.length) = 1 + before.count lineFeed + 1 := by
  have hlast : (before ++ bytes).getLast? ≠ some lineFeed := by
    rw [List.getLast?_append_of_ne_nil _ hne]
    exact fun h => hbytes (List.mem_of_getLast? h)
  rw [← List.length_append, lineAt_length, List.count_append, List.count_eq_zero.2 hbytes,
    if_pos ⟨List.append_ne_nil_of_right_ne_nil _ hne, hlast⟩]
  rfl

end Lines

namespace InputStream

variable {content : List UInt8} {s s' : InputStream}

/-! ## Streams in texts -/

/-- The stream stands at a right position of a text, the rest of which lies ahead. -/
structure Standing (content : List UInt8) (s : InputStream) : Prop where
  position : s.position.IsRight content
  rest : content.drop s.offset = s.source.rest
  text : ∃ cs, s.source.rest = utf8 cs

/-- A new stream stands at the beginning of its text. -/
lemma standing_ofBytes (cs : List Char) (seekable : Bool) (chunk : ℕ) :
    Standing (utf8 cs) (ofBytes (utf8 cs) seekable chunk) where
  position :=
    { offset_le := Nat.zero_le _
      line_eq := by
        show 1 = lineAt (utf8 cs) 0
        rw [lineAt, List.take_zero, List.count_nil]
        cases utf8 cs <;> rfl }
  rest := rfl
  text := ⟨cs, rfl⟩

/-- White space of one byte is a character of its own, so what follows a run of it is text. -/
lemma exists_dropWhile_utf8 (cs : List Char) :
    ∃ ds, (utf8 cs).dropWhile isSkipped = utf8 ds := by
  induction cs with
  | nil => exact ⟨[], rfl⟩
  | cons c cs ih =>
    rw [utf8_cons]
    cases hc : String.utf8EncodeChar c with
    | nil => exact ih
    | cons b bs =>
      by_cases hb : isSkipped b = true
      · have hbyte : b ∈ String.utf8EncodeChar c := hc ▸ List.mem_cons_self
        have hascii : b.toNat < 128 := by
          simp only [isSkipped, Bool.or_eq_true, beq_iff_eq, or_assoc] at hb
          rcases hb with rfl | rfl | rfl | rfl | rfl <;> decide
        have hsize : c.utf8Size = 1 := by
          rw [Char.utf8Size_eq_one_iff, UInt32.le_iff_toNat_le]
          show c.toNat ≤ 127
          rcases toNat_of_mem_utf8EncodeChar hbyte with heq | hge <;> omega
        have hlength := String.length_utf8EncodeChar c
        rw [hc, hsize, List.length_cons] at hlength
        obtain rfl := List.eq_nil_of_length_eq_zero (Nat.succ.inj hlength)
        rw [List.singleton_append, List.dropWhile_cons_of_pos hb]
        exact ih
      · rw [List.cons_append, List.dropWhile_cons_of_neg hb]
        exact ⟨c :: cs, by rw [utf8_cons, hc, List.cons_append]⟩

/-- A line that is read is counted, unless it is the end that is read. -/
lemma line_of_readLine {text : String} (h : s.readLine = (.ok text, s')) :
    s'.line = if text = "" then s.line else s.line + 1 := by
  have hbytes := (readLine_ok h).1
  simp only [InputStream.readLine, hbytes, fromUTF8?_bytesOf] at h
  split at h
  next hempty =>
    obtain ⟨-, rfl⟩ := Prod.mk.inj h
    have htext : text = "" := bytesOf_injective (List.isEmpty_iff.1 hempty)
    rw [if_pos htext]
  next hfull =>
    obtain ⟨-, rfl⟩ := Prod.mk.inj h
    have htext : text ≠ "" := by
      rintro rfl
      exact hfull rfl
    rw [if_neg htext]

namespace Standing

/-- The content is what lies before the stream and what lies ahead of it. -/
lemma exists_before (h : s.Standing content) :
    ∃ before, content = before ++ s.source.rest ∧ s.offset = before.length := by
  refine ⟨content.take s.offset, ?_, ?_⟩
  · rw [← h.rest, List.take_append_drop]
  · have hle : s.offset ≤ content.length := h.position.offset_le
    rw [List.length_take, Nat.min_eq_left hle]

/-- Before the end of the text, the line feeds before the stream are counted. -/
lemma line_eq (h : s.Standing content) {before : List UInt8}
    (hcontent : content = before ++ s.source.rest) (hoffset : s.offset = before.length)
    (hrest : s.source.rest ≠ []) : s.line = before.count lineFeed := by
  have hline : s.line + 1 = lineAt content s.offset := h.position.line_eq
  rw [hcontent, hoffset, lineAt_append hrest] at hline
  omega

/-- The stream has gone on behind a line feed. -/
lemma of_lineFeed (h : s.Standing content) {bytes more : List UInt8} (hbytes : lineFeed ∉ bytes)
    (hrest : s.source.rest = bytes ++ lineFeed :: more) (hmore : s'.source.rest = more)
    (hoffset : s'.offset = s.offset + (bytes ++ [lineFeed]).length) (hline : s'.line = s.line + 1)
    (htext : ∃ cs, more = utf8 cs) : s'.Standing content := by
  obtain ⟨before, hcontent, hbefore⟩ := h.exists_before
  have hcount := h.line_eq hcontent hbefore (by simp [hrest])
  rw [hrest, ← List.append_assoc] at hcontent
  rw [List.length_append, List.length_singleton, ← Nat.add_assoc, hbefore] at hoffset
  refine ⟨⟨?_, ?_⟩, ?_, ?_⟩
  · show s'.offset ≤ content.length
    rw [hoffset, hcontent, List.length_append, List.length_append, List.length_cons]
    omega
  · show s'.line + 1 = lineAt content s'.offset
    rw [hoffset, hcontent, lineAt_append_lineFeed _ _ _ hbytes, hline, hcount]
    omega
  · have hsplit : content = before ++ bytes ++ [lineFeed] ++ more := by
      rw [hcontent, List.append_assoc _ [lineFeed], List.singleton_append]
    have hlength : s'.offset = (before ++ bytes ++ [lineFeed]).length := by
      rw [hoffset, List.length_append, List.length_append, List.length_singleton]
    rw [hsplit, hlength, List.drop_left, hmore]
  · rw [hmore]
    exact htext

/-- The stream has gone on to the end of the text, over a last line without a line feed. -/
lemma of_last (h : s.Standing content) (hne : s.source.rest ≠ []) (hfeed : lineFeed ∉ s.source.rest)
    (hrest : s'.source.rest = []) (hoffset : s'.offset = s.offset + s.source.rest.length)
    (hline : s'.line = s.line + 1) : s'.Standing content := by
  obtain ⟨before, hcontent, hbefore⟩ := h.exists_before
  have hcount := h.line_eq hcontent hbefore hne
  have hend : s'.offset = content.length := by
    rw [hoffset, hcontent, List.length_append, hbefore]
  refine ⟨⟨?_, ?_⟩, ?_, [], ?_⟩
  · exact hend.le
  · show s'.line + 1 = lineAt content s'.offset
    rw [hoffset, hbefore, hcontent, lineAt_append_last _ hne hfeed, hline, hcount]
    omega
  · rw [hend, List.drop_length, hrest]
  · exact hrest

/-- A line of the text is read, and the stream stands behind it. -/
lemma readLine (h : s.Standing content) :
    ∃ text s', s.readLine = (.ok text, s') ∧ s'.Standing content := by
  obtain ⟨cs, hcs⟩ := h.text
  obtain ⟨text, s', hread, hrest, ⟨front, hfront, hline⟩, htext⟩ := exists_readLine hcs
  have hcount := line_of_readLine hread
  have hoffset := (readLine_ok hread).2
  have hnone : lineFeed ∉ utf8 front := lineFeed_notMem_utf8 hfront
  refine ⟨text, s', hread, ?_⟩
  rw [bytesOf_eq_utf8] at hrest hoffset
  by_cases hempty : text = ""
  · subst hempty
    refine ⟨?_, ?_, htext⟩
    · rw [InputStream.position, hoffset, hcount]
      exact h.position
    · rw [hoffset]
      exact h.rest.trans hrest
  · rw [if_neg hempty] at hcount
    -- the line ends with its feed, or the text ends with the line
    rcases hline with hline | ⟨hline, hnil⟩
    · rw [hline, utf8_append, utf8_lineFeed] at hrest hoffset
      rw [List.append_assoc] at hrest
      exact h.of_lineFeed hnone hrest rfl hoffset hcount htext
    · rw [hline, hnil, List.append_nil] at hrest
      rw [hline, ← hrest] at hoffset
      have hne : s.source.rest ≠ [] := by
        rw [hrest, ← hline, ← bytesOf_eq_utf8]
        exact fun hzero => hempty (bytesOf_injective hzero)
      exact h.of_last hne (hrest ▸ hnone) hnil hoffset hcount

/-- White space is skipped.  If text follows, the stream stands before it. -/
lemma skipWhitespace (h : s.Standing content) (hopen : s.skipWhitespace.1 = false) :
    s.skipWhitespace.2.Standing content := by
  obtain ⟨hcount, hfeeds, hended, hrest⟩ := s.source.skipRun_spec
  obtain ⟨before, hcontent, hbefore⟩ := h.exists_before
  obtain ⟨cs, hcs⟩ := h.text
  have hsplit : s.source.rest =
      s.source.rest.takeWhile isSkipped ++ s.source.rest.dropWhile isSkipped :=
    List.takeWhile_append_dropWhile.symm
  -- something that is not skipped follows, so the position lies within the text
  have hmore : s.source.rest.dropWhile isSkipped ≠ [] :=
    List.isEmpty_eq_false_iff.1 (hended.symm.trans hopen)
  have hne : s.source.rest ≠ [] := by
    intro hnil
    rw [hnil] at hmore
    exact hmore rfl
  have hline : s.line = before.count lineFeed := h.line_eq hcontent hbefore hne
  rw [hsplit, ← List.append_assoc] at hcontent
  have hoffset : s.skipWhitespace.2.offset =
      (before ++ s.source.rest.takeWhile isSkipped).length := by
    rw [List.length_append, ← hcount, ← hbefore]
    rfl
  refine ⟨⟨?_, ?_⟩, ?_, ?_⟩
  · show s.skipWhitespace.2.offset ≤ content.length
    rw [hoffset, hcontent]
    exact (List.prefix_append _ _).length_le
  · show s.line + s.source.skipRun.2.1 + 1 = lineAt content s.skipWhitespace.2.offset
    rw [hoffset, hcontent, lineAt_append hmore, List.count_append, hfeeds, hline]
    omega
  · rw [hoffset, hcontent, List.drop_left]
    exact hrest.symm
  · show ∃ ds, s.source.skipRun.2.2.2.rest = utf8 ds
    rw [hrest, hcs]
    exact exists_dropWhile_utf8 cs

/-- A place of the text ahead lies behind as many more lines as there are line feeds before it. -/
lemma isRight_ahead (h : s.Standing content) {j : ℕ} (hj : j < s.source.rest.length) :
    Position.IsRight content
      ⟨s.position.line + (s.source.rest.take j).count lineFeed, s.position.offset + j⟩ := by
  obtain ⟨before, hcontent, hbefore⟩ := h.exists_before
  have hne : s.source.rest ≠ [] := List.ne_nil_of_length_pos (Nat.lt_of_le_of_lt (Nat.zero_le j) hj)
  have hline : s.line = before.count lineFeed := h.line_eq hcontent hbefore hne
  have hmore : s.source.rest.drop j ≠ [] := mt List.drop_eq_nil_iff.1 (Nat.not_le_of_lt hj)
  have hsplit : content = before ++ s.source.rest.take j ++ s.source.rest.drop j := by
    rw [List.append_assoc, List.take_append_drop]
    exact hcontent
  have hoffset : s.position.offset + j = (before ++ s.source.rest.take j).length := by
    rw [List.length_append, List.length_take, Nat.min_eq_left hj.le, ← hbefore]
    rfl
  constructor
  · show s.position.offset + j ≤ content.length
    rw [hoffset, hsplit]
    exact (List.prefix_append _ _).length_le
  · show s.line + 1 + _ = lineAt content (s.position.offset + j)
    rw [hoffset, hsplit, lineAt_append hmore, List.count_append, hline]
    omega

end Standing

end InputStream

/-! ## Errors at right positions -/

/-- What the error refuses in the input, it refuses at a place with `Q`. -/
def ReadError.At (Q : Position → Prop) : ReadError → Prop
  | .refused pos refusal => refusal.IsOrdinary → Q pos
  | .system _ => True

/-- What is reported at a place is refused there. -/
lemma Position.report_at {α ε : Type} {Q : Position → Prop} {pos : Position} (h : Q pos)
    (refusal : ε → Refusal) (x : Except ε α) :
    Settles (ReadError.At Q) (fun _ => True) (pos.report refusal x) := by
  cases x with
  | error e => exact fun _ => h
  | ok a => exact True.intro

namespace InputStream.Standing

variable {content : List UInt8} {s : InputStream} {σ α : Type} {E : ReadError → Prop}
  {P P' : σ → Prop}
  {step : σ → Position → String → Except ReadError (LineStep σ)} {state : σ}

variable (hstep : ∀ state pos text, P state → pos.IsRight content →
  Settles E (LineStep.LeadsTo P P') (step state pos text))

include hstep

/-- A loop over the lines of a text fails like its steps do at right positions, and the stream
stands in its text afterwards. -/
lemma foldLines (h : s.Standing content) (hstate : P state) {last : Position}
    (hlast : last.IsRight content) :
    Settles E (fun r => (P r.1 ∨ P' r.1) ∧ r.2.IsRight content)
        (s.foldLines step state last).1 ∧
      (s.foldLines step state last).2.Standing content := by
  obtain ⟨line, s', hread, hs'⟩ := h.readLine
  -- the stream is read in the statement already, so that each branch can go on from where it stands
  fun_induction InputStream.foldLines step state last s generalizing line s' with
  | case1 state last s e s₁ herror =>
    rw [herror] at hread
    cases hread
  | case2 state last s s₁ hend =>
    rw [hend] at hread
    cases hread
    exact ⟨⟨.inl hstate, hlast⟩, hs'⟩
  | case3 state last s line₁ s₁ hread₁ hne e he =>
    rw [hread₁] at hread
    cases hread
    exact ⟨(hstep state s.position line₁ hstate h.position).of_error he, hs'⟩
  | case4 state last s line₁ s₁ hread₁ hne state₁ hdone =>
    rw [hread₁] at hread
    cases hread
    have hleads := (hstep state s.position line₁ hstate h.position).of_ok hdone
    exact ⟨⟨.inr hleads, h.position⟩, hs'⟩
  | case5 state last s line₁ s₁ hread₁ hne state₁ hmore ih =>
    rw [hread₁] at hread
    cases hread
    have hleads := (hstep state s.position line₁ hstate h.position).of_ok hmore
    obtain ⟨line', s'', hread', hs''⟩ := hs'.readLine
    exact ih hs' hleads h.position line' s'' hread' hs''

/-- What is made of the lines of a text is made of right positions. -/
lemma readThrough {finish : Position → σ × Position → Position → Except ReadError α}
    (hfinish : ∀ base r ending, P r.1 ∨ P' r.1 → r.2.IsRight content → ending.IsRight content →
      Settles E (fun _ => True) (finish base r ending))
    (h : s.Standing content) (hstate : P state) :
    Settles E (fun _ => True) (s.readThrough step state finish).1 ∧
      (s.readThrough step state finish).2.Standing content := by
  have hfold := h.foldLines hstep hstate h.position
  unfold InputStream.readThrough
  split
  next e s' heq =>
    rw [heq] at hfold
    exact hfold
  next r s' heq =>
    rw [heq] at hfold
    exact ⟨hfinish s.position r s'.position hfold.1.1 hfold.1.2 hfold.2.position, hfold.2⟩

end InputStream.Standing

end LinearInterchange
